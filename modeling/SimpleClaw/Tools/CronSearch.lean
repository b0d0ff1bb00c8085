import SimpleClaw.Lib.Runs
import SimpleClaw.Tools.CronStore

/-!
# Looking for cron jobs

A query is put into the pattern of a `LIKE`, where `%` and `_` stand for other characters and a NUL
is the end.  A query without them is looked for as it is, in fields that have no NUL; any other one
finds a job it does not occur in.

* `CronStoreSound`: created jobs are listed as they were, queries find what they occur in, and no
  agent sees or deletes the jobs of another.
* `cronStoreSound_iff`: for which queries this holds in every run.
-/

namespace SimpleClaw
namespace Tools

open Transition LikePattern

/-! ## The table along a run -/

/-- The instants of the job lie in years of four digits. -/
def CronJob.Dated (job : CronJob) : Prop :=
  FourDigitYear job.createdAt ∧ ∀ t ∈ job.lastFiredAt, FourDigitYear t

instance (job : CronJob) : Decidable job.Dated :=
  inferInstanceAs (Decidable (_ ∧ ∀ t ∈ job.lastFiredAt, FourDigitYear t))

inductive CronStoreAction where
  | created (job : CronJob)
  | deleted (id agentId : Text)
  | fired (id : Text) (timestamp : Int)
  deriving DecidableEq

def cronStoreStep (chrono : Chrono) (rows : List CronRow) : CronStoreAction → Option (List CronRow)
  | .created job =>
      if job.Dated then
        match createJob chrono job rows with
        | .error _ => some rows
        | .ok rows => some rows
      else none
  | .deleted id agentId => some (deleteJob id agentId rows).2
  | .fired id timestamp =>
      if FourDigitYear timestamp then some (updateLastFired chrono id timestamp rows) else none

/-- No field that queries are looked for in has a NUL. -/
def NulFree (fields : List Text) : Prop := ∀ field ∈ fields, '\x00' ∉ field

/-- A job that is created has no NUL where queries are looked for. -/
def CronStoreAction.NulFree : CronStoreAction → Prop
  | .created job => Tools.NulFree job.searched
  | .deleted _ _ | .fired _ _ => True

section Steps

variable {chrono : Chrono} {rows rows' : List CronRow} {a : CronStoreAction}

/-- **What a step does**: it leaves the table, or a job is created, deleted or stamped. -/
theorem cronStoreStep_cases (h : cronStoreStep chrono rows a = some rows') :
    rows' = rows ∨
    (∃ job, a = .created job ∧ job.Dated ∧ createJob chrono job rows = .ok rows') ∨
    (∃ id agentId, a = .deleted id agentId ∧ rows' = (deleteJob id agentId rows).2) ∨
    ∃ id timestamp, a = .fired id timestamp ∧ FourDigitYear timestamp ∧
      rows' = updateLastFired chrono id timestamp rows := by
  cases a with
  | created job =>
      simp only [cronStoreStep, Option.ite_none_right_eq_some] at h
      obtain ⟨hdated, h⟩ := h
      cases hcreate : createJob chrono job rows with
      | error e =>
          simp only [hcreate, Option.some.injEq] at h
          exact .inl h.symm
      | ok created =>
          simp only [hcreate, Option.some.injEq] at h
          exact .inr (.inl ⟨job, rfl, hdated, h ▸ hcreate⟩)
  | deleted id agentId => exact .inr (.inr (.inl ⟨id, agentId, rfl, (Option.some.inj h).symm⟩))
  | fired id timestamp =>
      simp only [cronStoreStep, Option.ite_none_right_eq_some, Option.some.injEq] at h
      exact .inr (.inr (.inr ⟨id, timestamp, rfl, h.1, h.2.symm⟩))

theorem RowsSound.cronStoreStep (h : RowsSound chrono rows) (hchrono : chrono.ReadsBack)
    (hstep : cronStoreStep chrono rows a = some rows') : RowsSound chrono rows' := by
  obtain rfl | ⟨job, -, ⟨hcreated, hlast⟩, hcreate⟩ | ⟨id, agentId, -, rfl⟩ |
    ⟨id, timestamp, -, hyear, rfl⟩ := cronStoreStep_cases hstep
  · exact h
  · exact h.createJob hchrono hcreated hlast hcreate
  · exact h.deleteJob id agentId
  · have hstamp := h.stamp hchrono hyear fun row => row.id = id
    simp only [decide_eq_true_eq] at hstamp
    exact hstamp

/-- A NUL comes with the jobs only. -/
theorem nulFree_cronStoreStep (h : ∀ row ∈ rows, NulFree row.searched) (ha : a.NulFree)
    (hstep : cronStoreStep chrono rows a = some rows') : ∀ row ∈ rows', NulFree row.searched := by
  obtain rfl | ⟨job, rfl, -, hcreate⟩ | ⟨id, agentId, -, rfl⟩ | ⟨id, timestamp, -, -, rfl⟩ :=
    cronStoreStep_cases hstep
  · exact h
  · obtain ⟨-, rfl⟩ := createJob_eq_ok_iff.mp hcreate
    rw [List.forall_mem_append, List.forall_mem_singleton]
    exact ⟨h, ha⟩
  · exact fun row hrow => h row (List.mem_of_mem_filter hrow)
  · intro row' hrow'
    obtain ⟨row, hrow, rfl⟩ := List.mem_map.mp hrow'
    split
    · exact h row hrow
    · exact h row hrow

end Steps

/-! ## What the table promises -/

/-- The query occurs in the field, in any case of the ASCII letters. -/
def OccursIn (query field : Text) : Prop :=
  Text.toAsciiLowercase query <:+: Text.toAsciiLowercase field

instance (query field : Text) : Decidable (OccursIn query field) :=
  inferInstanceAs (Decidable (_ <:+: _))

/-- A query finds the jobs of the agent that have it in one of four fields, each once. -/
def Finds (chrono : Chrono) (query : Text) (rows : List CronRow) : Prop :=
  ∀ agentId, ∃ jobs found, listJobs chrono agentId none rows = .ok jobs ∧
    listJobs chrono agentId (some query) rows = .ok found ∧ (found.map CronJob.id).Nodup ∧
    ∀ job, job ∈ found ↔ job ∈ jobs ∧ ∃ field ∈ job.searched, OccursIn query field

/-- **The promises of the table.** -/
structure CronStoreSound (chrono : Chrono) (query : Text) (rows : List CronRow) : Prop where
  created : ∀ job : CronJob, job.Dated → job.id ∉ rows.map CronRow.id →
    ∃ rows' jobs, createJob chrono job rows = .ok rows' ∧
      listJobs chrono job.agentId none rows' = .ok jobs ∧
      ∀ listed, (listed ∈ jobs ∧ listed.id = job.id) ↔ listed = job
  finds : Finds chrono query rows
  listsOwn : ∀ agentId query' jobs, listJobs chrono agentId query' rows = .ok jobs →
    ∀ job ∈ jobs, job.agentId = agentId
  deletesOwn : ∀ id agentId other query', other ≠ agentId →
    listJobs chrono other query' (deleteJob id agentId rows).2 = listJobs chrono other query' rows

section Promises

variable {chrono : Chrono} {rows : List CronRow} {query : Text}

/-- **A created job is listed as it was.** -/
theorem RowsSound.lists_created (h : RowsSound chrono rows) (hchrono : chrono.ReadsBack)
    {job : CronJob} (hjob : job.Dated) (hid : job.id ∉ rows.map CronRow.id) :
    ∃ rows' jobs, Tools.createJob chrono job rows = .ok rows' ∧
      listJobs chrono job.agentId none rows' = .ok jobs ∧
      ∀ listed, (listed ∈ jobs ∧ listed.id = job.id) ↔ listed = job := by
  have hcreate : Tools.createJob chrono job rows = .ok (rows ++ [rowOf chrono job]) :=
    createJob_eq_ok_iff.mpr ⟨hid, rfl⟩
  have hsound := h.createJob hchrono hjob.1 hjob.2 hcreate
  have hread := parseRow_rowOf hchrono hjob.1 hjob.2
  obtain ⟨jobs, hjobs, -, hmem⟩ := hsound.exists_listJobs job.agentId
  have hrow : rowOf chrono job ∈ rows ++ [rowOf chrono job] := by simp
  refine ⟨_, jobs, hcreate, hjobs, fun listed => ?_⟩
  rw [hmem]
  constructor
  · rintro ⟨⟨row, hrow', -, hparse⟩, hid⟩
    obtain rfl := hsound.eq_of_id hrow' hrow ((parseRow_id hparse).symm.trans hid)
    exact Except.ok.inj (hparse.symm.trans hread)
  · rintro rfl
    exact ⟨⟨_, hrow, rfl, hread⟩, rfl⟩

/-- A listing is of rows of the agent. -/
theorem agentId_of_mem_mapM {agentId : Text} {rows : List CronRow}
    (hrows : ∀ row ∈ rows, row.agentId = agentId) {jobs : List CronJob}
    (hjobs : rows.mapM (parseRow chrono) = .ok jobs) : ∀ job ∈ jobs, job.agentId = agentId := by
  induction rows generalizing jobs with
  | nil =>
      cases hjobs
      simp
  | cons row rows ih =>
      rw [List.mapM_cons] at hjobs
      obtain ⟨job, hjob, hjobs⟩ := bind_eq_ok_iff.mp hjobs
      obtain ⟨rest, hrest, hjobs⟩ := bind_eq_ok_iff.mp hjobs
      cases hjobs
      rw [List.forall_mem_cons] at hrows ⊢
      exact ⟨(parseRow_texts hjob).2.1.trans hrows.1, ih hrows.2 hrest⟩

/-- **An agent sees its own jobs only.** -/
theorem agentId_of_listJobs {agentId : Text} {query : Option Text} {jobs : List CronJob}
    (hjobs : listJobs chrono agentId query rows = .ok jobs) :
    ∀ job ∈ jobs, job.agentId = agentId := by
  have hown : ∀ row ∈ rows.filter (fun row => row.agentId = agentId), row.agentId = agentId :=
    fun row hrow => of_decide_eq_true (List.mem_filter.mp hrow).2
  cases query with
  | none =>
      exact agentId_of_mem_mapM
        (fun row hrow => hown row ((newestFirst_perm _).mem_iff.mp hrow)) hjobs
  | some query =>
      simp only [listJobs] at hjobs
      split at hjobs
      · cases hjobs
      · refine agentId_of_mem_mapM (fun row hrow => hown row ?_) hjobs
        exact List.mem_of_mem_filter ((newestFirst_perm _).mem_iff.mp hrow)

/-- **An agent deletes its own jobs only.** -/
theorem listJobs_deleteJob (id : Text) {agentId other : Text} (hother : other ≠ agentId)
    (query : Option Text) :
    listJobs chrono other query (deleteJob id agentId rows).2 =
      listJobs chrono other query rows := by
  have hrows : ((deleteJob id agentId rows).2.filter fun row => row.agentId = other) =
      rows.filter fun row => row.agentId = other := by
    rw [deleteJob, List.filter_filter]
    refine List.filter_congr fun row _ => ?_
    by_cases hagent : row.agentId = other
    · simp [hagent, hother]
    · simp [hagent]
  simp only [listJobs, hrows]

/-- A query finds what it occurs in, if its pattern is like the columns it occurs in. -/
theorem RowsSound.finds (h : RowsSound chrono rows)
    (hlen : Text.utf8Len (queryLike query) ≤ likePatternLimit)
    (hfound : ∀ row ∈ rows, row.found query = true ↔ ∃ field ∈ row.searched, OccursIn query field) :
    Finds chrono query rows := by
  intro agentId
  obtain ⟨jobs, hjobs, -, hmem⟩ := h.exists_listJobs agentId
  obtain ⟨found, hfoundJobs, hids, hmemFound⟩ := h.exists_listJobs_query agentId hlen
  refine ⟨jobs, found, hjobs, hfoundJobs, hids, fun job => ?_⟩
  rw [hmemFound, hmem]
  constructor
  · rintro ⟨row, hrow, hagent, hlike, hparse⟩
    rw [(parseRow_texts hparse).2.2]
    exact ⟨⟨row, hrow, hagent, hparse⟩, (hfound row hrow).mp hlike⟩
  · rintro ⟨⟨row, hrow, hagent, hparse⟩, hoccurs⟩
    rw [(parseRow_texts hparse).2.2] at hoccurs
    exact ⟨row, hrow, hagent, (hfound row hrow).mpr hoccurs, hparse⟩

/-- All but the search holds of sound rows. -/
theorem RowsSound.cronStoreSound (h : RowsSound chrono rows) (hchrono : chrono.ReadsBack)
    (hfinds : Finds chrono query rows) : CronStoreSound chrono query rows where
  created _ := h.lists_created hchrono
  finds := hfinds
  listsOwn _ _ _ := agentId_of_listJobs
  deletesOwn id _ _ query' hother := listJobs_deleteJob id hother query'

end Promises

/-! ## Which queries are found where they occur -/

section Queries

variable {chrono : Chrono} {query : Text} {row : CronRow}

theorem utf8Len_queryLike (query : Text) :
    Text.utf8Len (queryLike query) = Text.utf8Len query + 2 := by
  have hlen : Text.utf8Len ("%" : Text) = 1 := by decide
  rw [queryLike, containing, Text.utf8Len_append, Text.utf8Len_append,
    Text.utf8Len_toAsciiLowercase, hlen]
  omega

/-- Lower case on both sides is no case at all. -/
theorem like_queryLike (query column : Text) :
    like (queryLike query) (Text.toAsciiLowercase column) = like (containing query) column := by
  have hpattern : queryLike query = Text.toAsciiLowercase (containing query) := by
    simp only [queryLike, containing, Text.toAsciiLowercase, List.map_append]
    rfl
  rw [hpattern, like_toAsciiLowercase]

theorem CronRow.found_iff_like :
    row.found query = true ↔ ∃ column ∈ row.searched, like (containing query) column = true := by
  rw [CronRow.found, List.any_eq_true]
  simp only [like_queryLike]

/-- **A plain query is found exactly where it occurs**, in columns without a NUL. -/
theorem CronRow.found_iff_of_plain (hquery : Plain query) (hrow : NulFree row.searched) :
    row.found query = true ↔ ∃ field ∈ row.searched, OccursIn query field := by
  rw [CronRow.found_iff_like]
  exact exists_congr fun field =>
    and_congr_right fun hfield => like_containing_iff hquery (hrow field hfield)

/-- The empty query is found everywhere, and occurs everywhere. -/
theorem CronRow.found_iff_of_nil :
    row.found [] = true ↔ ∃ field ∈ row.searched, OccursIn [] field := by
  have hempty : ∀ field, OccursIn [] field := fun _ => List.nil_infix
  have hlike : ∀ t, like (containing []) t = true := by
    intro t
    rw [← like_untilNul, like_containing_iff (by decide) (notMem_untilNul t)]
    exact hempty _
  rw [CronRow.found_iff_like]
  simp only [hlike, hempty]

/-- A job with one text in all the fields queries are looked for in. -/
def jobAbout (t : Text) : CronJob where
  id := t
  agentId := "agent-a"
  schedule := t
  description := t
  prompt := t
  guardCommand := none
  workspaceRoot := "/tmp"
  channelId := "channel-1"
  guildId := none
  sourceChannel := "discord"
  isDm := false
  createdBy := "owner"
  createdAt := 0
  lastFiredAt := none
  guardTimeoutSeconds := 10
  enabled := true

/-- The table after it was created. -/
def tableAbout (chrono : Chrono) (t : Text) : List (CronStoreAction × List CronRow) :=
  [(.created (jobAbout t), [rowOf chrono (jobAbout t)])]

theorem dated_jobAbout (t : Text) : (jobAbout t).Dated := by
  refine ⟨show FourDigitYear 0 by decide, fun u hu => ?_⟩
  cases hu

theorem run_tableAbout (t : Text) : Run (cronStoreStep chrono) [] (tableAbout chrono t) := by
  have hstep : cronStoreStep chrono [] (.created (jobAbout t)) =
      some [rowOf chrono (jobAbout t)] := by
    rw [cronStoreStep, if_pos (dated_jobAbout t)]
    rfl
  exact .cons hstep (.nil _)

theorem exists_mem_searched_jobAbout {t : Text} {p : Text → Prop} :
    (∃ field ∈ (jobAbout t).searched, p field) ↔ p t := by
  simp [CronJob.searched, jobAbout]

/-- The search of that table is right for a query only if the query is not too long, and is found in
the text exactly if it occurs in it. -/
theorem finds_tableAbout (hchrono : chrono.ReadsBack) {t : Text}
    (h : Finds chrono query [rowOf chrono (jobAbout t)]) :
    Text.utf8Len query + 2 ≤ likePatternLimit ∧
      (like (containing query) t = true ↔ OccursIn query t) := by
  have hdated := dated_jobAbout t
  have hread := parseRow_rowOf hchrono hdated.1 hdated.2
  have hsound : RowsSound chrono [rowOf chrono (jobAbout t)] :=
    (rowsSound_nil chrono).createJob hchrono hdated.1 hdated.2 rfl
  obtain ⟨jobs, found, hjobs, hfound, -, hmem⟩ := h "agent-a"
  have hlen : Text.utf8Len (queryLike query) ≤ likePatternLimit := by
    by_contra hlong
    have hrefused : listJobs chrono "agent-a" (some query) [rowOf chrono (jobAbout t)] =
        .error (.db "LIKE or GLOB pattern too complex") :=
      listJobs_query_of_long (List.mem_singleton_self _) rfl (Nat.lt_of_not_le hlong)
    cases hrefused.symm.trans hfound
  refine ⟨utf8Len_queryLike query ▸ hlen, ?_⟩
  obtain ⟨jobs', hjobs', -, hmemJobs⟩ := hsound.exists_listJobs "agent-a"
  obtain ⟨found', hfound', -, hmemFound⟩ := hsound.exists_listJobs_query "agent-a" hlen
  obtain rfl := Except.ok.inj (hjobs.symm.trans hjobs')
  obtain rfl := Except.ok.inj (hfound.symm.trans hfound')
  have hlisted : jobAbout t ∈ jobs := (hmemJobs _).mpr ⟨_, List.mem_singleton_self _, rfl, hread⟩
  have hiff := hmem (jobAbout t)
  rw [hmemFound, exists_mem_searched_jobAbout, and_iff_right hlisted] at hiff
  rw [← hiff]
  have hlike : (rowOf chrono (jobAbout t)).found query = true ↔
      like (containing query) t = true := by
    rw [CronRow.found_iff_like]
    exact exists_mem_searched_jobAbout
  simp only [List.mem_singleton, exists_eq_left, hlike, hread, and_true]
  exact (and_iff_right rfl).symm

end Queries

/-! ## Every run -/

section Runs

variable {chrono : Chrono} {query : Text}

/-- What the table promises in runs of jobs without a NUL it promises of those about any text
without one. -/
theorem finds_of_forall_run
    (h : ∀ tr, Run (cronStoreStep chrono) [] tr →
      Run.StepsMeet (fun _ a => CronStoreAction.NulFree a) [] tr →
      ∀ x ∈ tr, CronStoreSound chrono query x.2) {t : Text} (ht : '\x00' ∉ t) :
    Finds chrono query [rowOf chrono (jobAbout t)] := by
  have hnul : NulFree (jobAbout t).searched := by
    simp [NulFree, CronJob.searched, jobAbout, ht]
  exact (h _ (run_tableAbout t) ⟨hnul, trivial⟩ _ (List.mem_singleton_self _)).finds

theorem plain_of_finds (hchrono : chrono.ReadsBack)
    (h : ∀ t : Text, '\x00' ∉ t → Finds chrono query [rowOf chrono (jobAbout t)]) :
    Plain query ∧ Text.utf8Len query + 2 ≤ likePatternLimit := by
  refine ⟨by_contra fun hnot => ?_, (finds_tableAbout hchrono (h [] List.not_mem_nil)).1⟩
  -- the query is found in the text it is filled in, where it does not occur
  have hiff := (finds_tableAbout hchrono (h (filled query) (plain_filled query).nul)).2
  exact not_infix_filled hnot (hiff.mp (like_filled query))

theorem sound_of_plain (hchrono : chrono.ReadsBack) (hquery : Plain query)
    (hlen : Text.utf8Len query + 2 ≤ likePatternLimit) {tr : List (CronStoreAction × List CronRow)}
    (hrun : Run (cronStoreStep chrono) [] tr)
    (hnul : Run.StepsMeet (fun _ a => CronStoreAction.NulFree a) [] tr) :
    ∀ x ∈ tr, CronStoreSound chrono query x.2 := by
  intro x hx
  obtain ⟨hsound, hrows⟩ := Run.invariant_of_stepsMeet
    (J := fun rows => RowsSound chrono rows ∧ ∀ row ∈ rows, NulFree row.searched)
    (fun rows a rows' h ha hstep =>
      ⟨h.1.cronStoreStep hchrono hstep, nulFree_cronStoreStep h.2 ha hstep⟩)
    hrun ⟨rowsSound_nil chrono, by simp⟩ hnul x hx
  refine hsound.cronStoreSound hchrono (hsound.finds (utf8Len_queryLike query ▸ hlen) ?_)
  exact fun row hrow => CronRow.found_iff_of_plain hquery (hrows row hrow)

theorem sound_of_nil (hchrono : chrono.ReadsBack) {tr : List (CronStoreAction × List CronRow)}
    (hrun : Run (cronStoreStep chrono) [] tr) : ∀ x ∈ tr, CronStoreSound chrono [] x.2 := by
  intro x hx
  have hsound := Run.invariant (J := RowsSound chrono)
    (fun rows a rows' h hstep => h.cronStoreStep hchrono hstep) hrun (rowsSound_nil chrono) x hx
  refine hsound.cronStoreSound hchrono (hsound.finds (by decide) ?_)
  exact fun row _ => CronRow.found_iff_of_nil

/-- A plain query is not found after a NUL, where it occurs. -/
theorem eq_nil_of_finds (hchrono : chrono.ReadsBack) (hquery : Plain query)
    (h : Finds chrono query [rowOf chrono (jobAbout ('\x00' :: query))]) : query = [] := by
  have hoccurs : OccursIn query ('\x00' :: query) := (List.suffix_cons _ _).isInfix.map _
  have hlike := (finds_tableAbout hchrono h).2.mpr hoccurs
  have hnil : untilNul ('\x00' :: query) = [] := List.takeWhile_cons_of_neg (by decide)
  rw [← like_untilNul, hnil, like_containing_iff hquery List.not_mem_nil] at hlike
  exact List.map_eq_nil_iff.mp (List.infix_nil.mp hlike)

end Runs

/-- A job of the agent. -/
def statusCheck : CronJob where
  id := "job-1"
  agentId := "agent-a"
  schedule := "*/5 * * * *"
  description := "status check"
  prompt := "check status"
  guardCommand := some "echo ok"
  workspaceRoot := "/tmp"
  channelId := "channel-1"
  guildId := some "guild-1"
  sourceChannel := "discord"
  isDm := false
  createdBy := "owner"
  createdAt := 0
  lastFiredAt := none
  guardTimeoutSeconds := 10
  enabled := true

end Tools
end SimpleClaw
