import SimpleClaw.Run.CronScheduler
import SimpleClaw.Tools.CronSearch

/-!
# The cron tool

A call creates, deletes or lists jobs on behalf of its agent; what it says is trimmed, and what is
empty then counts as not said.

* `CronTool.execute`: one call.
* `execute_step`: a call that succeeds is a step of the table, with the agent's id in it.
* `lists_created_of_execute`: the job it creates is listed as it was.
-/

namespace SimpleClaw
namespace Tools

open Run

structure CronToolConfig where
  maxJobsPerAgent : Option Nat
  guardTimeoutSeconds : Option UInt64

inductive CronAction where
  | create
  | delete
  | list
  deriving DecidableEq

structure CronArgs where
  action : CronAction
  schedule : Option Text
  description : Option Text
  prompt : Option Text
  guardCommand : Option Text
  id : Option Text
  query : Option Text

/-- Where the message of a job goes. -/
structure CronRoute where
  channelId : Text
  guildId : Option Text
  sourceChannel : Text
  isDm : Bool

structure CronContext where
  agentId : Text
  userId : Text
  workspaceRoot : Text
  completionRoute : Option CronRoute

inductive CronOutcome where
  | created (job : CronJob)
  | deleted (deleted : Bool) (id : Text)
  | listed (jobs : List CronJob)

/-- What an argument says, if it says something. -/
def said (value : Option Text) : Option Text := (value.map Text.trim).filter (· ≠ [])

def required (value : Option Text) (message : Text) : Except FrameworkError Text :=
  match said value with
  | some value => .ok value
  | none => .error (.tool message)

/-- The job of a call, in a table with room for it. -/
def newJob (lib : CronLibrary) (config : CronToolConfig) (ctx : CronContext) (args : CronArgs)
    (newId : Text) (now : Int) (rows : List CronRow) : Except FrameworkError CronJob :=
  match ctx.completionRoute with
  | none =>
      .error (.tool "cron create unavailable: completion route context is missing")
  | some route => do
      let schedule ← required args.schedule "cron create requires non-empty schedule"
      match parseSchedule lib schedule with
      | .error err =>
          .error (.tool (("invalid cron schedule '" : Text) ++ schedule ++ ("': " : Text) ++ err))
      | .ok _ =>
          let description ← required args.description "cron create requires non-empty description"
          let prompt ← required args.prompt "cron create requires non-empty prompt"
          let maxJobs := config.maxJobsPerAgent.getD 50
          if maxJobs ≤ countJobsForAgent ctx.agentId rows then
            .error (.tool (("cron create rejected: max jobs per agent (" : Text) ++
              Text.decimal maxJobs ++ (") reached" : Text)))
          else
            .ok
              { id := newId
                agentId := ctx.agentId
                schedule, description, prompt
                guardCommand := said args.guardCommand
                workspaceRoot := ctx.workspaceRoot
                channelId := route.channelId
                guildId := route.guildId
                sourceChannel := route.sourceChannel
                isDm := route.isDm
                createdBy := ctx.userId
                createdAt := now
                lastFiredAt := none
                guardTimeoutSeconds := max (config.guardTimeoutSeconds.getD 10) 1
                enabled := true }

/-- One call: what it says, and the table after it.  A call that fails leaves the table. -/
def CronTool.execute (lib : CronLibrary) (chrono : Chrono) (config : CronToolConfig)
    (ctx : CronContext) (args : CronArgs) (newId : Text) (now : Int) (rows : List CronRow) :
    Except FrameworkError (CronOutcome × List CronRow) :=
  match args.action with
  | .create => do
      let job ← newJob lib config ctx args newId now rows
      let rows ← createJob chrono job rows
      .ok (.created job, rows)
  | .delete => do
      let id ← required args.id "cron delete requires non-empty id"
      let (deleted, rows) := deleteJob id ctx.agentId rows
      .ok (.deleted deleted id, rows)
  | .list => do
      let jobs ← listJobs chrono ctx.agentId (said args.query) rows
      .ok (.listed jobs, rows)

/-! ## Calls and the table -/

section Calls

variable {lib : CronLibrary} {chrono : Chrono} {config : CronToolConfig} {ctx : CronContext}
  {args : CronArgs} {newId : Text} {now : Int} {rows rows' : List CronRow}

/-- The job of a call is a new one of its agent, and may be stored. -/
theorem newJob_ok {job : CronJob} (hnow : FourDigitYear now)
    (h : newJob lib config ctx args newId now rows = .ok job) :
    job.id = newId ∧ job.agentId = ctx.agentId ∧ job.Dated ∧
      countJobsForAgent ctx.agentId rows < config.maxJobsPerAgent.getD 50 := by
  unfold newJob at h
  split at h
  · cases h
  · obtain ⟨schedule, -, h⟩ := bind_eq_ok_iff.mp h
    split at h
    · cases h
    · obtain ⟨description, -, h⟩ := bind_eq_ok_iff.mp h
      obtain ⟨prompt, -, h⟩ := bind_eq_ok_iff.mp h
      simp only at h
      split at h
      · cases h
      · next hroom =>
        obtain rfl := Except.ok.inj h
        exact ⟨rfl, rfl, ⟨hnow, by simp⟩, Nat.lt_of_not_le hroom⟩

/-- **What a call does that succeeds.** -/
theorem execute_cases {outcome : CronOutcome}
    (h : CronTool.execute lib chrono config ctx args newId now rows = .ok (outcome, rows')) :
    (∃ job, outcome = .created job ∧ newJob lib config ctx args newId now rows = .ok job ∧
      createJob chrono job rows = .ok rows') ∨
    (∃ id, outcome = .deleted (deleteJob id ctx.agentId rows).1 id ∧
      rows' = (deleteJob id ctx.agentId rows).2) ∨
    ∃ jobs, outcome = .listed jobs ∧ rows' = rows ∧
      listJobs chrono ctx.agentId (said args.query) rows = .ok jobs := by
  unfold CronTool.execute at h
  split at h
  · obtain ⟨job, hjob, h⟩ := bind_eq_ok_iff.mp h
    obtain ⟨created, hcreate, h⟩ := bind_eq_ok_iff.mp h
    obtain ⟨rfl, rfl⟩ := Prod.mk.inj (Except.ok.inj h)
    exact .inl ⟨job, rfl, hjob, hcreate⟩
  · obtain ⟨id, -, h⟩ := bind_eq_ok_iff.mp h
    obtain ⟨rfl, rfl⟩ := Prod.mk.inj (Except.ok.inj h)
    exact .inr (.inl ⟨id, rfl, rfl⟩)
  · obtain ⟨jobs, hjobs, h⟩ := bind_eq_ok_iff.mp h
    obtain ⟨rfl, rfl⟩ := Prod.mk.inj (Except.ok.inj h)
    exact .inr (.inr ⟨jobs, rfl, rfl, hjobs⟩)

/-- **A call that succeeds is a step of the table** with the agent's id in it, and what it says is
what the table answers to that agent. -/
theorem execute_step {outcome : CronOutcome} (hnow : FourDigitYear now)
    (h : CronTool.execute lib chrono config ctx args newId now rows = .ok (outcome, rows')) :
    (∃ job, outcome = .created job ∧ job.agentId = ctx.agentId ∧ job.id ∉ rows.map CronRow.id ∧
      cronStoreStep chrono rows (.created job) = some rows') ∨
    (∃ deleted id, outcome = .deleted deleted id ∧
      (deleted = true ↔ ∃ row ∈ rows, row.id = id ∧ row.agentId = ctx.agentId) ∧
      cronStoreStep chrono rows (.deleted id ctx.agentId) = some rows') ∨
    ∃ jobs, outcome = .listed jobs ∧ rows' = rows ∧
      listJobs chrono ctx.agentId (said args.query) rows = .ok jobs := by
  obtain ⟨job, rfl, hjob, hcreate⟩ | ⟨id, rfl, rfl⟩ | hlisted := execute_cases h
  · obtain ⟨-, hagent, hdated, -⟩ := newJob_ok hnow hjob
    refine .inl ⟨job, rfl, hagent, (createJob_eq_ok_iff.mp hcreate).1, ?_⟩
    rw [cronStoreStep, if_pos hdated, hcreate]
  · refine .inr (.inl ⟨_, id, rfl, ?_, rfl⟩)
    simp [deleteJob]
  · exact .inr (.inr hlisted)

/-- **What a call that creates a job stores** is listed for its agent, and equal to it. -/
theorem lists_created_of_execute (hchrono : chrono.ReadsBack) (hrows : RowsSound chrono rows)
    {job : CronJob} (hnow : FourDigitYear now)
    (h : CronTool.execute lib chrono config ctx args newId now rows = .ok (.created job, rows')) :
    ∃ jobs, listJobs chrono ctx.agentId none rows' = .ok jobs ∧ job ∈ jobs := by
  obtain ⟨job', hjob', hjob, hcreate⟩ | ⟨id, hid, -⟩ | ⟨jobs, hjobs, -⟩ := execute_cases h
  · obtain rfl := CronOutcome.created.inj hjob'
    obtain ⟨-, hagent, hdated, -⟩ := newJob_ok hnow hjob
    obtain ⟨created, jobs, hcreated, hjobs, hmem⟩ :=
      hrows.lists_created hchrono hdated (createJob_eq_ok_iff.mp hcreate).1
    obtain rfl := Except.ok.inj (hcreated.symm.trans hcreate)
    exact ⟨jobs, hagent ▸ hjobs, ((hmem job).mpr rfl).1⟩
  · cases hid
  · cases hjobs

end Calls

end Tools
end SimpleClaw
