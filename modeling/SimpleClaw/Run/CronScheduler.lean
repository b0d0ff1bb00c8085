import Mathlib.Algebra.Order.Group.Int
import SimpleClaw.Gateway.Listener
import SimpleClaw.Lib.Recurrence
import SimpleClaw.Tools.CronStore

/-!
# The cron scheduler

At every tick the scheduler lists the enabled jobs and fires those that are due: it sends a
message for the job and stores the instant of the tick with it.  A job that has fired is due if
its schedule has an occurrence since then; one that has not is due if there is an occurrence in
the minute of the tick.  Schedules are read and gone through by a library, which is a parameter;
how the guard commands, the sends and the statements on the store fare is up to the surroundings.

* `shouldFire`, `runTick`: the tick.
* `CronLibrary.Exact`: what is asked of the library.
* `shouldFire_fired_iff`, `shouldFire_new_iff`: when a job is due.
* `exists_runTick_eq`: what a tick sends, and which rows it changes.
-/

namespace SimpleClaw
namespace Run

open Config Gateway Tools Recurrence

/-! ## Schedules -/

/-- Schedules, and the instants after a given one that they yield. -/
structure CronLibrary where
  Schedule : Type
  fromStr : Text → Except Text Schedule
  after : Schedule → Int → Nat → Option Int

/-- **The iterator is exact**: it yields the occurrences of the schedule after the instant, all of
them, in order, and these are whole seconds. -/
structure CronLibrary.Exact (lib : CronLibrary) (occurs : lib.Schedule → Int → Prop) : Prop where
  wholeSecond : ∀ schedule o, occurs schedule o → o % nanosPerSecond = 0
  yields : ∀ schedule t n o, lib.after schedule t n = some o → occurs schedule o ∧ t < o
  ordered : ∀ schedule t m n o o', m < n → lib.after schedule t m = some o →
    lib.after schedule t n = some o' → o < o'
  fused : ∀ schedule t n, lib.after schedule t n = none → lib.after schedule t (n + 1) = none
  complete : ∀ schedule t o, occurs schedule o → t < o → ∃ n, lib.after schedule t n = some o

/-- A schedule of five fields is one of six, at second 0. -/
def parseSchedule (lib : CronLibrary) (raw : Text) : Except Text lib.Schedule :=
  match lib.fromStr raw with
  | .ok schedule => .ok schedule
  | .error err =>
      if raw.splitWhitespace.length = 5 then lib.fromStr (("0 " : Text) ++ raw) else .error err

/-! ## A tick -/

/-- The start of the minute of an instant. -/
def minuteStart (now : Int) : Int := now - now % (60 * nanosPerSecond)

def shouldFire (lib : CronLibrary) (job : CronJob) (now : Int) : Bool :=
  match parseSchedule lib job.schedule with
  | .error _ => false
  | .ok schedule =>
      match job.lastFiredAt with
      | some lastFiredAt => ((lib.after schedule lastFiredAt 0).filter (· ≤ now)).isSome
      | none =>
          let minuteStartExclusive := minuteStart now - nanosPerSecond
          match lib.after schedule minuteStartExclusive 0 with
          | some next => minuteStart now ≤ next && next ≤ now
          | none => false

/-- A guard command, and where and how long it is run. -/
structure GuardRequest where
  command : Text
  workspaceRoot : Text
  env : List (Text × Text)
  timeoutSeconds : Nat
  deriving DecidableEq

/-- What the scheduler is spawned with. -/
structure CronConfig where
  lib : CronLibrary
  chrono : Chrono
  envByAgent : List (Text × List (Text × Text))
  defaultGuardTimeout : Nat

/-- How the surroundings answer in a tick: the guard commands, the statements on the store, the
sends, and the trace ids given out. -/
structure TickEnv where
  listError : Option FrameworkError
  guard : GuardRequest → Except FrameworkError Bool
  sendError : CronJob → Option FrameworkError
  updateError : CronJob → Option FrameworkError
  traceId : CronJob → Text

def parseSourceChannel (raw : Text) : Option GatewayChannelKind :=
  if raw.trim = ("discord" : Text) then some .discord else none

section Tick

variable (config : CronConfig) (now : Int) (env : TickEnv)

/-- The guard command of a job lets it fire, if it has one. -/
def guardAllows (job : CronJob) : Bool :=
  match job.guardCommand with
  | none => true
  | some guardCommand =>
      if guardCommand.trim = [] then true
      else
        match env.guard
          { command := guardCommand
            workspaceRoot := job.workspaceRoot
            env := (config.envByAgent.lookup job.agentId).getD []
            timeoutSeconds :=
              if job.guardTimeoutSeconds = 0 then max config.defaultGuardTimeout 1
              else job.guardTimeoutSeconds.toNat } with
        | .ok allowed => allowed
        | .error _ => false

/-- The message of a job. -/
def cronInbound (job : CronJob) (sourceChannel : GatewayChannelKind) (traceId : Text) :
    InboundMessage where
  traceId := traceId
  sourceChannel := sourceChannel
  targetAgentId := job.agentId
  sessionKey := ("agent:" : Text) ++ job.agentId ++ (":cron:" : Text) ++ job.id ++ (":" : Text) ++
    traceId
  sourceMessageId := none
  channelId := job.channelId
  guildId := job.guildId
  isDm := job.isDm
  userId := "system"
  username := "cron"
  mentionedBot := false
  invoke := true
  content := ("[SCHEDULED CRON EVENT]\nJob ID: " : Text) ++ job.id ++ ("\nDescription: " : Text) ++
    job.description ++ ("\nSchedule: " : Text) ++ job.schedule ++ ("\n\n" : Text) ++ job.prompt

/-- What is sent for a job, if it fires. -/
def sendFor (job : CronJob) : Option InboundMessage :=
  if shouldFire config.lib job now = false then none
  else if guardAllows config env job = false then none
  else
    match parseSourceChannel job.sourceChannel with
    | none => none
    | some sourceChannel =>
        match env.sendError job with
        | some _ => none
        | none => some (cronInbound job sourceChannel (env.traceId job))

/-- One round of the loop over the jobs, with what has been sent and the rows. -/
def runJob (state : List (Text × InboundMessage) × List CronRow) (job : CronJob) :
    List (Text × InboundMessage) × List CronRow :=
  match sendFor config now env job with
  | none => state
  | some message =>
      (state.1 ++ [(job.id, message)],
        match env.updateError job with
        | some _ => state.2
        | none => updateLastFired config.chrono job.id now state.2)

/-- What a tick sends, and the rows after it. -/
def runTick (rows : List CronRow) : List (Text × InboundMessage) × List CronRow :=
  match env.listError with
  | some _ => ([], rows)
  | none =>
      match listAllEnabled config.chrono rows with
      | .error _ => ([], rows)
      | .ok jobs => jobs.foldl (runJob config now env) ([], rows)

end Tick

/-! ## When a job is due -/

section Due

variable {lib : CronLibrary} {occurs : lib.Schedule → Int → Prop} {schedule : lib.Schedule}

/-- The first instant of the iterator is the next occurrence. -/
theorem CronLibrary.Exact.next_le (h : lib.Exact occurs) {t next o : Int}
    (hnext : lib.after schedule t 0 = some next) (ho : occurs schedule o) (hlt : t < o) :
    next ≤ o := by
  obtain ⟨n, hn⟩ := h.complete schedule t o ho hlt
  cases n with
  | zero =>
      rw [hnext] at hn
      exact le_of_eq (Option.some.inj hn)
  | succ n => exact le_of_lt (h.ordered schedule t 0 (n + 1) next o (Nat.succ_pos n) hnext hn)

/-- An iterator that is over at once has no occurrence to yield. -/
theorem CronLibrary.Exact.not_occurs (h : lib.Exact occurs) {t o : Int}
    (hnext : lib.after schedule t 0 = none) (ho : occurs schedule o) : ¬ t < o := by
  intro hlt
  have hnone : ∀ n, lib.after schedule t n = none := by
    intro n
    induction n with
    | zero => exact hnext
    | succ n ih => exact h.fused schedule t n ih
  obtain ⟨n, hn⟩ := h.complete schedule t o ho hlt
  rw [hnone n] at hn
  cases hn

/-- **A job that has fired is due if its schedule has an occurrence since then.** -/
theorem shouldFire_fired_iff (h : lib.Exact occurs) {job : CronJob} {last now : Int}
    (hparse : parseSchedule lib job.schedule = .ok schedule) (hlast : job.lastFiredAt = some last) :
    shouldFire lib job now = true ↔ Due (occurs schedule) last now := by
  simp only [shouldFire, hparse, hlast]
  cases hnext : lib.after schedule last 0 with
  | none =>
      refine iff_of_false (by simp) ?_
      rintro ⟨o, ho, hlt, -⟩
      exact h.not_occurs hnext ho hlt
  | some next =>
      obtain ⟨hoccurs, hlt⟩ := h.yields schedule last 0 next hnext
      constructor
      · intro hfilter
        have hle : next ≤ now := by simpa using hfilter
        exact ⟨next, hoccurs, hlt, hle⟩
      · rintro ⟨o, ho, hlast', hle⟩
        have hnow : next ≤ now := le_trans (h.next_le hnext ho hlast') hle
        simpa using hnow

/-- **A job that has not fired is due if there is an occurrence in the minute of the tick.** -/
theorem shouldFire_new_iff (h : lib.Exact occurs) {job : CronJob} {now : Int}
    (hparse : parseSchedule lib job.schedule = .ok schedule) (hlast : job.lastFiredAt = none) :
    shouldFire lib job now = true ↔ ∃ o, occurs schedule o ∧ minuteStart now ≤ o ∧ o ≤ now := by
  simp only [shouldFire, hparse, hlast]
  cases hnext : lib.after schedule (minuteStart now - nanosPerSecond) 0 with
  | none =>
      refine iff_of_false (by simp) ?_
      rintro ⟨o, ho, hstart, -⟩
      exact h.not_occurs hnext ho (by unfold nanosPerSecond; omega)
  | some next =>
      obtain ⟨hoccurs, hlt⟩ := h.yields schedule _ 0 next hnext
      -- there is no whole second between the excluded instant and the start of the minute
      have hstart : minuteStart now ≤ next := by
        have hwhole := h.wholeSecond schedule next hoccurs
        unfold minuteStart nanosPerSecond at *
        omega
      constructor
      · intro hfires
        have hle : next ≤ now := by simpa [hstart] using hfires
        exact ⟨next, hoccurs, hstart, hle⟩
      · rintro ⟨o, ho, hmin, hle⟩
        have hnow : next ≤ now :=
          le_trans (h.next_le hnext ho (by unfold nanosPerSecond; omega)) hle
        simpa [hstart] using hnow

end Due

/-! ## What a tick does -/

section Effect

variable {config : CronConfig} {now : Int} {env : TickEnv}

/-- The tick stores that the job has fired. -/
def stampsFor (config : CronConfig) (now : Int) (env : TickEnv) (job : CronJob) : Bool :=
  (sendFor config now env job).isSome && (env.updateError job).isNone

/-- The loop sends the messages of the jobs, and stamps the rows of those it can. -/
theorem foldl_runJob (jobs : List CronJob) (sent : List (Text × InboundMessage))
    (rows : List CronRow) :
    jobs.foldl (runJob config now env) (sent, rows) =
      (sent ++ jobs.filterMap (fun job =>
          (sendFor config now env job).map fun message => (job.id, message)),
        rows.map fun row =>
          if jobs.any (fun job => stampsFor config now env job && decide (row.id = job.id)) then
            row.stamp config.chrono now
          else row) := by
  induction jobs generalizing sent rows with
  | nil => simp
  | cons job jobs ih =>
      rw [List.foldl_cons]
      cases hsend : sendFor config now env job with
      | none =>
          have hstamps : stampsFor config now env job = false := by rw [stampsFor, hsend]; rfl
          rw [show runJob config now env (sent, rows) job = (sent, rows) by rw [runJob, hsend], ih]
          simp [hsend, hstamps]
      | some message =>
          have hstamps : stampsFor config now env job = (env.updateError job).isNone := by
            rw [stampsFor, hsend]
            rfl
          rw [show runJob config now env (sent, rows) job =
            (sent ++ [(job.id, message)], match env.updateError job with
              | some _ => rows
              | none => updateLastFired config.chrono job.id now rows) by rw [runJob, hsend], ih]
          refine Prod.ext (by simp [hsend]) ?_
          cases hupdate : env.updateError job with
          | some e => simp [hstamps, hupdate]
          | none =>
              simp only [updateLastFired, List.map_map]
              refine List.map_congr_left fun row _ => ?_
              by_cases hid : row.id = job.id
              · -- stamped once or twice, with the same instant
                simp [hstamps, hupdate, hid, CronRow.stamp]
              · simp [hstamps, hid]

/-- **What a tick sends, and which rows it changes**, if all rows can be read. -/
theorem exists_runTick_eq (now : Int) {rows : List CronRow} (hlist : env.listError = none)
    (hrows : ∀ row ∈ rows, row.Readable config.chrono) :
    ∃ jobs : List CronJob, (∀ job, job ∈ jobs ↔
        ∃ row ∈ rows, row.enabled = 1 ∧ parseRow config.chrono row = .ok job) ∧
      runTick config now env rows =
        (jobs.filterMap (fun job =>
            (sendFor config now env job).map fun message => (job.id, message)),
          rows.map fun row =>
            if jobs.any (fun job => stampsFor config now env job && decide (row.id = job.id)) then
              row.stamp config.chrono now
            else row) := by
  obtain ⟨jobs, hjobs, hmem⟩ := exists_listAllEnabled hrows
  refine ⟨jobs, hmem, ?_⟩
  rw [runTick, hlist]
  simp only [hjobs]
  rw [foldl_runJob, List.nil_append]

/-- A job without a guard command that can be sent is sent if it is due. -/
theorem sendFor_isSome_iff {job : CronJob}
    (hguard : ∀ guardCommand, job.guardCommand = some guardCommand → guardCommand.trim = [])
    (hchannel : (parseSourceChannel job.sourceChannel).isSome) (hsend : env.sendError job = none) :
    (sendFor config now env job).isSome = shouldFire config.lib job now := by
  have hallows : guardAllows config env job = true := by
    cases hcommand : job.guardCommand with
    | none => simp [guardAllows, hcommand]
    | some guardCommand => simp [guardAllows, hcommand, hguard guardCommand hcommand]
  obtain ⟨sourceChannel, hchannel⟩ := Option.isSome_iff_exists.mp hchannel
  cases hfires : shouldFire config.lib job now with
  | false => simp [sendFor, hfires]
  | true => simp [sendFor, hfires, hallows, hchannel, hsend]

end Effect

end Run
end SimpleClaw
