import Mathlib.Data.Char
import Mathlib.Data.List.Lex
import Mathlib.Data.List.Nodup
import Mathlib.Data.List.Sort
import SimpleClaw.Chrono
import SimpleClaw.Error
import SimpleClaw.Lib.ByteSlice
import SimpleClaw.Lib.LikePattern

/-!
# The cron store

A job is stored as a row: its instants are stored as texts, its timeout as a signed number.

* `parseRow`: the job of a row.
* `createJob`, `deleteJob`, `listJobs`: what the tool does with the rows.
* `listAllEnabled`, `updateLastFired`: what the scheduler does with them.
* `parseRow_rowOf`, `exists_listAllEnabled`, `exists_listJobs`: stored jobs are read back and can
  be listed.
-/

namespace SimpleClaw
namespace Tools

structure CronJob where
  id : Text
  agentId : Text
  schedule : Text
  description : Text
  prompt : Text
  guardCommand : Option Text
  workspaceRoot : Text
  channelId : Text
  guildId : Option Text
  sourceChannel : Text
  isDm : Bool
  createdBy : Text
  createdAt : Int
  lastFiredAt : Option Int
  guardTimeoutSeconds : UInt64
  enabled : Bool
  deriving DecidableEq

/-- The job with another last fire. -/
def CronJob.firedAt (job : CronJob) (lastFiredAt : Option Int) : CronJob := { job with lastFiredAt }

/-- A row of `cron_jobs`. -/
structure CronRow where
  id : Text
  agentId : Text
  schedule : Text
  description : Text
  prompt : Text
  guardCommand : Option Text
  workspaceRoot : Text
  channelId : Text
  guildId : Option Text
  sourceChannel : Text
  isDm : Int
  createdBy : Text
  createdAt : Text
  lastFiredAt : Option Text
  guardTimeoutSeconds : Int64
  enabled : Int
  deriving DecidableEq

def boolToI64 (value : Bool) : Int := if value then 1 else 0

/-- The row `create_job` inserts. -/
def rowOf (chrono : Chrono) (job : CronJob) : CronRow where
  id := job.id
  agentId := job.agentId
  schedule := job.schedule
  description := job.description
  prompt := job.prompt
  guardCommand := job.guardCommand
  workspaceRoot := job.workspaceRoot
  channelId := job.channelId
  guildId := job.guildId
  sourceChannel := job.sourceChannel
  isDm := boolToI64 job.isDm
  createdBy := job.createdBy
  createdAt := chrono.toRfc3339 job.createdAt
  lastFiredAt := job.lastFiredAt.map chrono.toRfc3339
  guardTimeoutSeconds := job.guardTimeoutSeconds.toInt64
  enabled := boolToI64 job.enabled

/-- The id is the primary key. -/
def createJob (chrono : Chrono) (job : CronJob) (rows : List CronRow) :
    Except FrameworkError (List CronRow) :=
  if rows.any fun row => row.id = job.id then
    .error (.db "UNIQUE constraint failed: cron_jobs.id")
  else .ok (rows ++ [rowOf chrono job])

/-- Deletes the job if it is one of the agent's, and says whether it was. -/
def deleteJob (id agentId : Text) (rows : List CronRow) : Bool × List CronRow :=
  (rows.any fun row => row.id = id && row.agentId = agentId,
    rows.filter fun row => !(row.id = id && row.agentId = agentId))

/-- An instant of a column, or the error of the conversion. -/
def parseInstant (chrono : Chrono) (raw : Text) : Except FrameworkError Int :=
  match chrono.parseFromRfc3339 raw with
  | .ok t => .ok t
  | .error message => .error (.db message)

def parseLastFired (chrono : Chrono) : Option Text → Except FrameworkError (Option Int)
  | some raw => (parseInstant chrono raw).map some
  | none => .ok none

def parseRow (chrono : Chrono) (row : CronRow) : Except FrameworkError CronJob := do
  let createdAt ← parseInstant chrono row.createdAt
  let lastFiredAt ← parseLastFired chrono row.lastFiredAt
  pure
    { id := row.id
      agentId := row.agentId
      schedule := row.schedule
      description := row.description
      prompt := row.prompt
      guardCommand := row.guardCommand
      workspaceRoot := row.workspaceRoot
      channelId := row.channelId
      guildId := row.guildId
      sourceChannel := row.sourceChannel
      isDm := row.isDm ≠ 0
      createdBy := row.createdBy
      createdAt, lastFiredAt
      guardTimeoutSeconds := row.guardTimeoutSeconds.toUInt64
      enabled := row.enabled ≠ 0 }

/-! ## Listing -/

/-- The columns a query is looked for in. -/
def CronRow.searched (row : CronRow) : List Text :=
  [row.id, row.schedule, row.description, row.prompt]

/-- The pattern a query is looked for with. -/
def queryLike (query : Text) : Text := LikePattern.containing (Text.toAsciiLowercase query)

/-- One of the columns, in lower case, is like the pattern. -/
def CronRow.found (query : Text) (row : CronRow) : Bool :=
  row.searched.any fun column => LikePattern.like (queryLike query) (Text.toAsciiLowercase column)

/-- `ORDER BY created_at DESC`. -/
def newestFirst (rows : List CronRow) : List CronRow :=
  rows.insertionSort fun row row' => row'.createdAt ≤ row.createdAt

/-- How many bytes the database allows a pattern. -/
def likePatternLimit : Nat := 50000

/-- The jobs of an agent, or those a query is found in.  A pattern is read, and refused if it is too
long, once there is a row to compare it with. -/
def listJobs (chrono : Chrono) (agentId : Text) (query : Option Text) (rows : List CronRow) :
    Except FrameworkError (List CronJob) :=
  let own := rows.filter fun row => row.agentId = agentId
  match query with
  | some query =>
      if own ≠ [] ∧ likePatternLimit < Text.utf8Len (queryLike query) then
        .error (.db "LIKE or GLOB pattern too complex")
      else (newestFirst (own.filter (CronRow.found query))).mapM (parseRow chrono)
  | none => (newestFirst own).mapM (parseRow chrono)

def countJobsForAgent (agentId : Text) (rows : List CronRow) : Nat :=
  rows.countP fun row => row.agentId = agentId

def listAllEnabled (chrono : Chrono) (rows : List CronRow) : Except FrameworkError (List CronJob) :=
  (rows.filter fun row => row.enabled = 1).mapM (parseRow chrono)

/-- The row with the instant of its last fire. -/
def CronRow.stamp (chrono : Chrono) (timestamp : Int) (row : CronRow) : CronRow :=
  { row with lastFiredAt := some (chrono.toRfc3339 timestamp) }

def updateLastFired (chrono : Chrono) (id : Text) (timestamp : Int) (rows : List CronRow) :
    List CronRow :=
  rows.map fun row => if row.id = id then row.stamp chrono timestamp else row

/-! ## What the rows give back -/

/-- **A stored job is read back**, if its instants lie in years of four digits. -/
theorem parseRow_rowOf {chrono : Chrono} (hchrono : chrono.ReadsBack) {job : CronJob}
    (hcreated : FourDigitYear job.createdAt)
    (hlast : ∀ t, job.lastFiredAt = some t → FourDigitYear t) :
    parseRow chrono (rowOf chrono job) = .ok job := by
  have hlast' : parseLastFired chrono (job.lastFiredAt.map chrono.toRfc3339) =
      .ok job.lastFiredAt := by
    cases hfired : job.lastFiredAt with
    | none => rfl
    | some t =>
        simp only [Option.map_some, parseLastFired, parseInstant, hchrono t (hlast t hfired)]
        rfl
  have hcreated' : parseInstant chrono (chrono.toRfc3339 job.createdAt) = .ok job.createdAt := by
    rw [parseInstant, hchrono _ hcreated]
  refine bind_eq_ok_iff.mpr ⟨job.createdAt, hcreated', bind_eq_ok_iff.mpr ⟨_, hlast', ?_⟩⟩
  -- the flags are read back from their numbers, and the timeout from the signed one
  obtain ⟨_, _, _, _, _, _, _, _, _, _, isDm, _, _, _, timeout, enabled⟩ := job
  have htimeout : timeout.toInt64.toUInt64 = timeout := UInt64.toUInt64_toInt64 timeout
  cases isDm <;> cases enabled <;> simp only [rowOf, htimeout] <;> rfl

/-- The row of a job that was stamped is the row of the job with that last fire. -/
theorem stamp_rowOf (chrono : Chrono) (job : CronJob) (t : Int) :
    (rowOf chrono job).stamp chrono t = rowOf chrono (job.firedAt (some t)) := rfl

/-- The fields of a job that a query is looked for in. -/
def CronJob.searched (job : CronJob) : List Text :=
  [job.id, job.schedule, job.description, job.prompt]

/-- What is a text in both is the same in both. -/
theorem parseRow_texts {chrono : Chrono} {row : CronRow} {job : CronJob}
    (h : parseRow chrono row = .ok job) :
    job.id = row.id ∧ job.agentId = row.agentId ∧ job.searched = row.searched := by
  obtain ⟨created, -, h⟩ := bind_eq_ok_iff.mp h
  obtain ⟨last, -, h⟩ := bind_eq_ok_iff.mp h
  cases h
  exact ⟨rfl, rfl, rfl⟩

theorem parseRow_id {chrono : Chrono} {row : CronRow} {job : CronJob}
    (h : parseRow chrono row = .ok job) : job.id = row.id := (parseRow_texts h).1

/-- The row can be read. -/
def CronRow.Readable (chrono : Chrono) (row : CronRow) : Prop :=
  ∃ job, parseRow chrono row = .ok job

/-- A readable row stays so when it is stamped. -/
theorem CronRow.Readable.stamp {chrono : Chrono} (hchrono : chrono.ReadsBack) {row : CronRow}
    {t : Int} (ht : FourDigitYear t) (h : row.Readable chrono) :
    (row.stamp chrono t).Readable chrono := by
  obtain ⟨job, h⟩ := h
  obtain ⟨created, hcreated, -⟩ := bind_eq_ok_iff.mp h
  refine ⟨_, bind_eq_ok_iff.mpr ⟨created, hcreated, bind_eq_ok_iff.mpr ⟨some t, ?_, rfl⟩⟩⟩
  simp only [CronRow.stamp, parseLastFired, parseInstant, hchrono t ht]
  rfl

/-- Readable rows are read one by one. -/
theorem exists_mapM_parseRow {chrono : Chrono} {rows : List CronRow}
    (h : ∀ row ∈ rows, row.Readable chrono) :
    ∃ jobs, rows.mapM (parseRow chrono) = .ok jobs ∧
      jobs.map CronJob.id = rows.map CronRow.id ∧
      ∀ job, job ∈ jobs ↔ ∃ row ∈ rows, parseRow chrono row = .ok job := by
  induction rows with
  | nil => exact ⟨[], rfl, rfl, by simp⟩
  | cons row rows ih =>
      obtain ⟨job, hjob⟩ := h row List.mem_cons_self
      obtain ⟨jobs, hjobs, hids, hmem⟩ := ih fun r hr => h r (List.mem_cons_of_mem row hr)
      refine ⟨job :: jobs, ?_, ?_, fun j => ?_⟩
      · rw [List.mapM_cons, hjob, hjobs]
        rfl
      · rw [List.map_cons, List.map_cons, hids, parseRow_id hjob]
      · have hhead : j = job ↔ parseRow chrono row = .ok j := by
          rw [hjob]
          exact ⟨fun h => by rw [h], fun h => (Except.ok.inj h).symm⟩
        simp only [List.mem_cons, exists_eq_or_imp, hmem, hhead]

/-- **Readable rows can be listed**: the jobs are those of the enabled rows. -/
theorem exists_listAllEnabled {chrono : Chrono} {rows : List CronRow}
    (h : ∀ row ∈ rows, row.Readable chrono) :
    ∃ jobs, listAllEnabled chrono rows = .ok jobs ∧
      ∀ job, job ∈ jobs ↔ ∃ row ∈ rows, row.enabled = 1 ∧ parseRow chrono row = .ok job := by
  have hreadable : ∀ row ∈ rows.filter (fun row => row.enabled = 1), row.Readable chrono :=
    fun row hrow => h row (List.mem_of_mem_filter hrow)
  obtain ⟨jobs, hjobs, -, hmem⟩ := exists_mapM_parseRow hreadable
  refine ⟨jobs, hjobs, fun job => ?_⟩
  simp only [hmem, List.mem_filter, decide_eq_true_eq, and_assoc]

theorem newestFirst_perm (rows : List CronRow) : (newestFirst rows).Perm rows :=
  List.perm_insertionSort _ rows

/-! ## The invariant of the rows -/

/-- No two rows have one id, and every row can be read. -/
structure RowsSound (chrono : Chrono) (rows : List CronRow) : Prop where
  ids : (rows.map CronRow.id).Nodup
  readable : ∀ row ∈ rows, row.Readable chrono

theorem rowsSound_nil (chrono : Chrono) : RowsSound chrono [] where
  ids := List.nodup_nil
  readable := by simp

section Sound

variable {chrono : Chrono} {rows : List CronRow}

/-- A row is known by its id. -/
theorem RowsSound.eq_of_id (h : RowsSound chrono rows) {row row' : CronRow} (hrow : row ∈ rows)
    (hrow' : row' ∈ rows) (hid : row.id = row'.id) : row = row' :=
  List.inj_on_of_nodup_map h.ids hrow hrow' hid

theorem createJob_eq_ok_iff {job : CronJob} {rows' : List CronRow} :
    createJob chrono job rows = .ok rows' ↔
      job.id ∉ rows.map CronRow.id ∧ rows' = rows ++ [rowOf chrono job] := by
  rw [createJob]
  split
  · next hany =>
      obtain ⟨row, hrow, hid⟩ := List.any_eq_true.mp hany
      refine iff_of_false (by simp) fun h => h.1 ?_
      exact List.mem_map.mpr ⟨row, hrow, of_decide_eq_true hid⟩
  · next hany =>
      have hnot : job.id ∉ rows.map CronRow.id := by
        intro hmem
        obtain ⟨row, hrow, hid⟩ := List.mem_map.mp hmem
        exact hany (List.any_eq_true.mpr ⟨row, hrow, decide_eq_true hid⟩)
      constructor
      · intro h
        exact ⟨hnot, (Except.ok.inj h).symm⟩
      · rintro ⟨-, rfl⟩
        rfl

theorem RowsSound.createJob (h : RowsSound chrono rows) (hchrono : chrono.ReadsBack)
    {job : CronJob} {rows' : List CronRow} (hcreated : FourDigitYear job.createdAt)
    (hlast : ∀ t, job.lastFiredAt = some t → FourDigitYear t)
    (hcreate : createJob chrono job rows = .ok rows') :
    RowsSound chrono rows' := by
  obtain ⟨hid, rfl⟩ := createJob_eq_ok_iff.mp hcreate
  constructor
  · rw [List.map_append, List.nodup_append]
    refine ⟨h.ids, List.nodup_singleton _, ?_⟩
    intro id hmem id' hmem' heq
    obtain rfl := List.mem_singleton.mp hmem'
    rw [heq] at hmem
    exact hid hmem
  · intro row hrow
    rcases List.mem_append.mp hrow with hrow | hrow
    · exact h.readable row hrow
    · obtain rfl := List.mem_singleton.mp hrow
      exact ⟨job, parseRow_rowOf hchrono hcreated hlast⟩

theorem RowsSound.deleteJob (h : RowsSound chrono rows) (id agentId : Text) :
    RowsSound chrono (deleteJob id agentId rows).2 where
  ids := h.ids.sublist (List.filter_sublist.map _)
  readable row hrow := h.readable row (List.mem_of_mem_filter hrow)

/-- Stamping some of the rows keeps them sound. -/
theorem RowsSound.stamp (h : RowsSound chrono rows) (hchrono : chrono.ReadsBack) {now : Int}
    (hnow : FourDigitYear now) (p : CronRow → Bool) :
    RowsSound chrono (rows.map fun row => if p row then row.stamp chrono now else row) := by
  have hids : ∀ row : CronRow, (if p row then row.stamp chrono now else row).id = row.id := by
    intro row
    split
    · rfl
    · rfl
  constructor
  · rw [List.map_map, show (CronRow.id ∘ fun row => if p row then row.stamp chrono now else row) =
      CronRow.id from funext hids]
    exact h.ids
  · intro row' hrow'
    obtain ⟨row, hrow, rfl⟩ := List.mem_map.mp hrow'
    split
    · exact (h.readable row hrow).stamp hchrono hnow
    · exact h.readable row hrow

/-! ## Listing the jobs of an agent -/

/-- Some of the rows, read in the order of the listing. -/
theorem RowsSound.exists_newestFirst (h : RowsSound chrono rows) (p : CronRow → Bool) :
    ∃ jobs, (newestFirst (rows.filter p)).mapM (parseRow chrono) = .ok jobs ∧
      (jobs.map CronJob.id).Nodup ∧
      ∀ job, job ∈ jobs ↔ ∃ row ∈ rows, p row = true ∧ parseRow chrono row = .ok job := by
  have hmem : ∀ row, row ∈ newestFirst (rows.filter p) ↔ row ∈ rows ∧ p row = true := by
    intro row
    rw [(newestFirst_perm _).mem_iff, List.mem_filter]
  have hreadable : ∀ row ∈ newestFirst (rows.filter p), row.Readable chrono :=
    fun row hrow => h.readable row ((hmem row).mp hrow).1
  obtain ⟨jobs, hjobs, hids, hmemJobs⟩ := exists_mapM_parseRow hreadable
  refine ⟨jobs, hjobs, ?_, fun job => ?_⟩
  · rw [hids, ((newestFirst_perm _).map _).nodup_iff]
    exact h.ids.sublist (List.filter_sublist.map _)
  · simp only [hmemJobs, hmem, and_assoc]

/-- **The jobs of an agent can be listed**, each once. -/
theorem RowsSound.exists_listJobs (h : RowsSound chrono rows) (agentId : Text) :
    ∃ jobs, listJobs chrono agentId none rows = .ok jobs ∧ (jobs.map CronJob.id).Nodup ∧
      ∀ job, job ∈ jobs ↔
        ∃ row ∈ rows, row.agentId = agentId ∧ parseRow chrono row = .ok job := by
  obtain ⟨jobs, hjobs, hids, hmem⟩ := h.exists_newestFirst fun row => row.agentId = agentId
  refine ⟨jobs, hjobs, hids, fun job => ?_⟩
  simp only [hmem, decide_eq_true_eq]

/-- **Those a query is found in can be listed**, if the pattern is not too long. -/
theorem RowsSound.exists_listJobs_query (h : RowsSound chrono rows) (agentId : Text) {query : Text}
    (hlen : Text.utf8Len (queryLike query) ≤ likePatternLimit) :
    ∃ found, listJobs chrono agentId (some query) rows = .ok found ∧
      (found.map CronJob.id).Nodup ∧
      ∀ job, job ∈ found ↔ ∃ row ∈ rows,
        row.agentId = agentId ∧ row.found query = true ∧ parseRow chrono row = .ok job := by
  obtain ⟨found, hfound, hids, hmem⟩ :=
    h.exists_newestFirst fun row => row.found query && row.agentId = agentId
  refine ⟨found, ?_, hids, fun job => ?_⟩
  · rw [← List.filter_filter] at hfound
    show (if _ ∧ likePatternLimit < Text.utf8Len (queryLike query) then _ else _) = _
    rw [if_neg fun hlong => absurd hlong.2 (by omega)]
    exact hfound
  · simp only [hmem, Bool.and_eq_true, decide_eq_true_eq, and_assoc, and_left_comm]

/-- A pattern that is too long is refused, once the agent has a job. -/
theorem listJobs_query_of_long {agentId query : Text} {row : CronRow} (hrow : row ∈ rows)
    (hagent : row.agentId = agentId)
    (hlen : likePatternLimit < Text.utf8Len (queryLike query)) :
    listJobs chrono agentId (some query) rows =
      .error (.db "LIKE or GLOB pattern too complex") := by
  have hown : (rows.filter fun row => row.agentId = agentId) ≠ [] :=
    List.ne_nil_of_mem (List.mem_filter.mpr ⟨hrow, decide_eq_true hagent⟩)
  exact if_pos ⟨hown, hlen⟩

end Sound

end Tools
end SimpleClaw
