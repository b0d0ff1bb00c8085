import SimpleClaw.Lib.Runs
import SimpleClaw.Run.CronScheduler

/-!
# When a cron job fires

The world of the scheduler is the table of the jobs, a clock that does not go back, and the ticks
that have been.  Between two ticks jobs are created and deleted, and the store may be closed and
opened again: all that is known of a job is in its row, as text.

* `CronWorld.step`: a tick, or what happens to the table between two.
* `CronWorld.Tracks`: the row of a job holds the instant of its last fire.
* `fires_after_first`: once a job has fired it fires by its schedule, one fire for the occurrences
  since the last.
* `firstExact_iff`: it fires first at the first tick with an occurrence since its creation exactly
  if, up to there, the minutes of the ticks show as much as the time since the creation.

A tick that cannot list the jobs is over before it reads the clock, so that it is no instant of
the schedule.
-/

namespace SimpleClaw
namespace Run

open Gateway Tools Transition Recurrence

/-! ## The world of the scheduler -/

/-- A tick that has listed the jobs: when it was, and what it sent for which jobs. -/
structure CronTick where
  now : Int
  sent : List (Text × InboundMessage)

/-- The tick has sent a message for the job. -/
def CronTick.fires (jobId : Text) (tick : CronTick) : Bool :=
  tick.sent.any fun entry => entry.1 = jobId

structure CronWorld where
  rows : List CronRow
  clock : Int
  ticks : List CronTick

inductive CronAction where
  | ticked (now : Int) (env : TickEnv)
  | created (job : CronJob)
  | deleted (id agentId : Text)
  | reopened

namespace CronWorld

/-- The ticks, with whether they fired the job. -/
def log (jobId : Text) (s : CronWorld) : List (Int × Bool) :=
  s.ticks.map fun tick => (tick.now, tick.fires jobId)

def step (config : CronConfig) (s : CronWorld) : CronAction → Option CronWorld
  | .ticked now env =>
      match env.listError with
      | some _ => some s
      | none =>
          if s.clock < now ∧ FourDigitYear now then
            let (sent, rows) := runTick config now env s.rows
            some { rows, clock := now, ticks := s.ticks ++ [{ now, sent }] }
          else none
  | .created job =>
      if s.clock ≤ job.createdAt ∧ FourDigitYear job.createdAt ∧ job.lastFiredAt = none then
        match createJob config.chrono job s.rows with
        | .error _ => some s
        | .ok rows => some { s with rows, clock := job.createdAt }
      else none
  | .deleted id agentId => some { s with rows := (deleteJob id agentId s.rows).2 }
  -- nothing of the scheduler outlives its process but the table
  | .reopened => some s

end CronWorld

/-- The action does not delete the job, and a tick that fires it can send and store that. -/
def Spares (jobId : Text) (_ : CronWorld) : CronAction → Prop
  | .ticked _ env => ∀ job, job.id = jobId → env.sendError job = none ∧ env.updateError job = none
  | .created _ => True
  | .deleted id _ => id ≠ jobId
  | .reopened => True

/-! ## One tick -/

/-- A job that can be fired by its schedule alone: it has no guard command, its channel is known
and its schedule is valid. -/
structure Fireable (config : CronConfig) (job : CronJob) (schedule : config.lib.Schedule) :
    Prop where
  parses : parseSchedule config.lib job.schedule = .ok schedule
  noGuard : ∀ guardCommand, job.guardCommand = some guardCommand → guardCommand.trim = []
  channel : (parseSourceChannel job.sourceChannel).isSome
  enabled : job.enabled = true
  created : FourDigitYear job.createdAt

section Tick

variable {config : CronConfig} {env : TickEnv} {rows : List CronRow} {job : CronJob}
  {schedule : config.lib.Schedule} {last : Option Int}

/-- **A tick fires a job exactly if it is due, and then its row holds the instant of the tick.** -/
theorem runTick_job (now : Int) (hchrono : config.chrono.ReadsBack)
    (hjob : Fireable config job schedule)
    (hrows : RowsSound config.chrono rows) (hlast : ∀ t, last = some t → FourDigitYear t)
    (hrow : rowOf config.chrono (job.firedAt last) ∈ rows) (hlist : env.listError = none)
    (hspares : ∀ j, j.id = job.id → env.sendError j = none ∧ env.updateError j = none) :
    ((runTick config now env rows).1.any fun entry => entry.1 = job.id) =
        shouldFire config.lib (job.firedAt last) now ∧
      rowOf config.chrono (job.firedAt
          (if shouldFire config.lib (job.firedAt last) now then some now else last)) ∈
        (runTick config now env rows).2 ∧
      ∃ p : CronRow → Bool, (runTick config now env rows).2 =
        rows.map fun row => if p row then row.stamp config.chrono now else row := by
  obtain ⟨jobs, hjobs, hrun⟩ := exists_runTick_eq now hlist hrows.readable
  obtain ⟨hsendError, hupdateError⟩ := hspares (job.firedAt last) rfl
  have hparse : parseRow config.chrono (rowOf config.chrono (job.firedAt last)) =
      .ok (job.firedAt last) := parseRow_rowOf hchrono hjob.created hlast
  -- the job is listed, and no other one has its id
  have hmem : job.firedAt last ∈ jobs := by
    refine (hjobs _).mpr ⟨_, hrow, ?_, hparse⟩
    simp [rowOf, CronJob.firedAt, hjob.enabled, boolToI64]
  have hunique : ∀ j ∈ jobs, j.id = job.id → j = job.firedAt last := by
    intro j hj hid
    obtain ⟨row, hrow', -, hparse'⟩ := (hjobs j).mp hj
    have heq := hrows.eq_of_id hrow' hrow ((parseRow_id hparse').symm.trans hid)
    rw [heq, hparse] at hparse'
    exact (Except.ok.inj hparse').symm
  have hany : ∀ p : CronJob → Bool,
      (jobs.any fun j => p j && decide (j.id = job.id)) = p (job.firedAt last) := by
    intro p
    rw [Bool.eq_iff_iff, List.any_eq_true]
    constructor
    · rintro ⟨j, hj, hp⟩
      obtain ⟨hp, hid⟩ := Bool.and_eq_true_iff.mp hp
      rw [← hunique j hj (of_decide_eq_true hid)]
      exact hp
    · intro hp
      exact ⟨_, hmem, by rw [hp]; exact decide_eq_true rfl⟩
  have hsend : (sendFor config now env (job.firedAt last)).isSome =
      shouldFire config.lib (job.firedAt last) now :=
    sendFor_isSome_iff hjob.noGuard hjob.channel hsendError
  have hstamps : stampsFor config now env (job.firedAt last) =
      shouldFire config.lib (job.firedAt last) now := by
    rw [stampsFor, hsend, hupdateError]
    simp
  rw [hrun]
  refine ⟨?_, ?_, _, rfl⟩
  · rw [List.any_filterMap, ← hsend, ← hany fun j => (sendFor config now env j).isSome]
    refine congrArg (jobs.any ·) (funext fun j => ?_)
    cases sendFor config now env j <;> simp
  · refine List.mem_map.mpr ⟨_, hrow, ?_⟩
    rw [show (jobs.any fun j => stampsFor config now env j &&
        decide ((rowOf config.chrono (job.firedAt last)).id = j.id)) =
      shouldFire config.lib (job.firedAt last) now from ?_]
    · cases shouldFire config.lib (job.firedAt last) now <;> simp [stamp_rowOf, CronJob.firedAt]
    · rw [← hstamps, ← hany (stampsFor config now env)]
      refine congrArg (jobs.any ·) (funext fun j => ?_)
      exact congrArg (stampsFor config now env j && ·) (decide_eq_decide.mpr eq_comm)

end Tick

/-! ## Along a run -/

/-- **The row of the job holds the instant of its last fire**, and the ticks are in order. -/
structure CronWorld.Tracks (config : CronConfig) (job : CronJob) (s : CronWorld) : Prop where
  sound : RowsSound config.chrono s.rows
  row : rowOf config.chrono (job.firedAt (lastFire (s.log job.id))) ∈ s.rows
  years : ∀ tick ∈ s.log job.id, FourDigitYear tick.1
  sorted : (s.log job.id).Pairwise fun x y => x.1 < y.1
  passed : ∀ tick ∈ s.log job.id, tick.1 ≤ s.clock

section World

variable {config : CronConfig} {job : CronJob} {schedule : config.lib.Schedule} {s s' : CronWorld}
  {a : CronAction}

theorem CronWorld.Tracks.lastFire_years (h : s.Tracks config job) {t : Int}
    (ht : lastFire (s.log job.id) = some t) : FourDigitYear t :=
  h.years _ (mem_of_lastFire ht)

/-- What happens to the other rows leaves the job as it was. -/
theorem CronWorld.Tracks.edited (h : s.Tracks config job) {rows : List CronRow} {clock : Int}
    (hsound : RowsSound config.chrono rows)
    (hrows : ∀ row ∈ s.rows, row.id = job.id → row ∈ rows) (hclock : s.clock ≤ clock) :
    CronWorld.Tracks config job { s with rows, clock } where
  sound := hsound
  row := hrows _ h.row rfl
  years := h.years
  sorted := h.sorted
  passed tick htick := le_trans (h.passed tick htick) hclock

/-- A tick appends to the log whether the job was due, and stores it. -/
theorem CronWorld.Tracks.ticked (h : s.Tracks config job) (hchrono : config.chrono.ReadsBack)
    (hjob : Fireable config job schedule) {now : Int} {env : TickEnv}
    (hspares : ∀ j, j.id = job.id → env.sendError j = none ∧ env.updateError j = none)
    (hlist : env.listError = none) (hclock : s.clock < now) (hyear : FourDigitYear now)
    (hs' : s' = { rows := (runTick config now env s.rows).2, clock := now,
                  ticks := s.ticks ++ [{ now, sent := (runTick config now env s.rows).1 }] }) :
    s'.Tracks config job ∧ s'.log job.id = s.log job.id ++
      [(now, shouldFire config.lib (job.firedAt (lastFire (s.log job.id))) now)] := by
  obtain ⟨hfires, hrow, p, hrows⟩ := runTick_job now hchrono hjob h.sound
    (fun t ht => h.lastFire_years ht) h.row hlist hspares
  have hlog : s'.log job.id = s.log job.id ++
      [(now, shouldFire config.lib (job.firedAt (lastFire (s.log job.id))) now)] := by
    rw [hs', ← hfires]
    simp [CronWorld.log, CronTick.fires]
  refine ⟨⟨?_, ?_, ?_, ?_, ?_⟩, hlog⟩
  · rw [hs']
    show RowsSound config.chrono (runTick config now env s.rows).2
    rw [hrows]
    exact h.sound.stamp hchrono hyear p
  · have hlast : lastFire (s'.log job.id) =
        if shouldFire config.lib (job.firedAt (lastFire (s.log job.id))) now then some now
        else lastFire (s.log job.id) := by
      rw [hlog]
      cases shouldFire config.lib (job.firedAt (lastFire (s.log job.id))) now <;> simp
    rw [hlast, hs']
    exact hrow
  · intro tick htick
    rw [hlog] at htick
    rcases List.mem_append.mp htick with htick | htick
    · exact h.years tick htick
    · rw [List.mem_singleton.mp htick]
      exact hyear
  · rw [hlog, List.pairwise_append]
    refine ⟨h.sorted, List.pairwise_singleton _ _, fun x hx y hy => ?_⟩
    rw [List.mem_singleton.mp hy]
    exact lt_of_le_of_lt (h.passed x hx) hclock
  · intro tick htick
    rw [hs']
    show tick.1 ≤ now
    rw [hlog] at htick
    rcases List.mem_append.mp htick with htick | htick
    · exact le_of_lt (lt_of_le_of_lt (h.passed tick htick) hclock)
    · rw [List.mem_singleton.mp htick]

/-- **What one step does**: a tick appends to the log whether the job was due, nothing else does,
and what the row of the job holds is kept up. -/
theorem CronWorld.Tracks.step (h : s.Tracks config job) (hchrono : config.chrono.ReadsBack)
    (hjob : Fireable config job schedule) (hspares : Spares job.id s a)
    (hstep : CronWorld.step config s a = some s') :
    s'.Tracks config job ∧
      ((∃ now env, a = .ticked now env ∧ env.listError = none ∧ s.clock < now ∧
          s'.log job.id = s.log job.id ++
            [(now, shouldFire config.lib (job.firedAt (lastFire (s.log job.id))) now)]) ∨
        (∀ now env, a = .ticked now env → env.listError ≠ none) ∧
          s'.log job.id = s.log job.id) := by
  cases a with
  | ticked now env =>
      simp only [CronWorld.step] at hstep
      cases hlist : env.listError with
      | some e =>
          simp only [hlist, Option.some.injEq] at hstep
          subst hstep
          exact ⟨h, Or.inr ⟨by rintro _ _ ⟨⟩; simp [hlist], rfl⟩⟩
      | none =>
          simp only [hlist, Option.ite_none_right_eq_some, Option.some.injEq] at hstep
          obtain ⟨⟨hclock, hyear⟩, hs'⟩ := hstep
          obtain ⟨htracks, hlog⟩ := h.ticked hchrono hjob hspares hlist hclock hyear hs'.symm
          exact ⟨htracks, Or.inl ⟨now, env, rfl, hlist, hclock, hlog⟩⟩
  | created job' =>
      simp only [CronWorld.step, Option.ite_none_right_eq_some] at hstep
      obtain ⟨⟨hclock, hyear, hnew⟩, hstep⟩ := hstep
      cases hcreate : createJob config.chrono job' s.rows with
      | error e =>
          simp only [hcreate, Option.some.injEq] at hstep
          subst hstep
          exact ⟨h, Or.inr ⟨by simp, rfl⟩⟩
      | ok rows =>
          simp only [hcreate, Option.some.injEq] at hstep
          subst hstep
          refine ⟨h.edited (h.sound.createJob hchrono hyear (by simp [hnew]) hcreate) ?_ hclock,
            Or.inr ⟨by simp, rfl⟩⟩
          obtain ⟨-, rfl⟩ := createJob_eq_ok_iff.mp hcreate
          exact fun row hrow _ => List.mem_append_left _ hrow
  | deleted id agentId =>
      obtain rfl := Option.some.inj hstep
      refine ⟨h.edited (h.sound.deleteJob id agentId) ?_ (le_refl _), Or.inr ⟨by simp, rfl⟩⟩
      intro row hrow hid
      refine List.mem_filter.mpr ⟨hrow, ?_⟩
      have hne : row.id ≠ id := by
        rw [hid]
        exact fun heq => hspares heq.symm
      simp [hne]
  | reopened =>
      obtain rfl := Option.some.inj hstep
      exact ⟨h, Or.inr ⟨by simp, rfl⟩⟩

/-- A job that has just been created. -/
theorem tracks_of_createJob (hchrono : config.chrono.ReadsBack)
    (hjob : Fireable config job schedule) (hnew : job.lastFiredAt = none)
    {rows rows' : List CronRow} (hrows : RowsSound config.chrono rows)
    (hcreate : createJob config.chrono job rows = .ok rows') :
    CronWorld.Tracks config job { rows := rows', clock := job.createdAt, ticks := [] } where
  sound := hrows.createJob hchrono hjob.created (by simp [hnew]) hcreate
  row := by
    obtain ⟨-, rfl⟩ := createJob_eq_ok_iff.mp hcreate
    rw [show job.firedAt (lastFire (CronWorld.log job.id ⟨_, job.createdAt, []⟩)) = job by
      simp [CronWorld.log, CronJob.firedAt, ← hnew]]
    exact List.mem_append_right _ (List.mem_singleton_self _)
  years := by simp [CronWorld.log]
  sorted := List.Pairwise.nil
  passed := by simp [CronWorld.log]

end World

section Exact

variable {config : CronConfig} {occurs : config.lib.Schedule → Int → Prop} {job : CronJob}
  {schedule : config.lib.Schedule} {rows rows' : List CronRow} {tr : List (CronAction × CronWorld)}

/-- **Once a job has fired, it fires by its schedule**: at a tick exactly if there is an occurrence
since the last fire, so that every occurrence causes one fire and those between two ticks share it.
The last fire is read back from the row. -/
theorem fires_after_first (hlib : config.lib.Exact occurs) (hchrono : config.chrono.ReadsBack)
    (hjob : Fireable config job schedule) (hnew : job.lastFiredAt = none)
    (hrows : RowsSound config.chrono rows) (hcreate : createJob config.chrono job rows = .ok rows')
    (hrun : Run (CronWorld.step config)
      { rows := rows', clock := job.createdAt, ticks := [] } tr)
    (hspares : Run.StepsMeet (Spares job.id)
      { rows := rows', clock := job.createdAt, ticks := [] } tr) :
    ∀ x ∈ tr, OneFireEach (occurs schedule) (x.2.log job.id) ∧
      ∃ row ∈ x.2.rows, parseRow config.chrono row =
        .ok (job.firedAt (lastFire (x.2.log job.id))) := by
  have hinv : ∀ x ∈ tr, x.2.Tracks config job ∧ LaterExact (occurs schedule) (x.2.log job.id) := by
    refine Run.invariant_of_stepsMeet (C := Spares job.id)
      (J := fun s => s.Tracks config job ∧ LaterExact (occurs schedule) (s.log job.id)) ?_ hrun
      ⟨tracks_of_createJob hchrono hjob hnew hrows hcreate, laterExact_nil⟩ hspares
    rintro s a s' ⟨hs, hlater⟩ hspares hstep
    obtain ⟨hs', ⟨now, env, -, -, -, hlog⟩ | ⟨-, hlog⟩⟩ := hs.step hchrono hjob hspares hstep
    · refine ⟨hs', ?_⟩
      rw [hlog]
      refine hlater.append fun last hlast => ?_
      exact shouldFire_fired_iff hlib hjob.parses (by rw [hlast]; rfl)
    · rw [hlog]
      exact ⟨hs', hlater⟩
  intro x hx
  obtain ⟨htracks, hlater⟩ := hinv x hx
  refine ⟨hlater.oneFireEach htracks.sorted, _, htracks.row, ?_⟩
  exact parseRow_rowOf hchrono hjob.created fun t ht => htracks.lastFire_years ht

/-- At a tick before the first fire, the minute of the tick shows an occurrence exactly if there
has been one since the job was created. -/
def OnTime (occurs : Int → Prop) (job : CronJob) (s : CronWorld) : CronAction → Prop
  | .ticked now env => env.listError = none → lastFire (s.log job.id) = none →
      ((∃ o, occurs o ∧ minuteStart now ≤ o ∧ o ≤ now) ↔ Due occurs job.createdAt now)
  | .created _ | .deleted _ _ | .reopened => True

/-- **The first fire is at the first tick with an occurrence since the creation if and only if
every tick is on time.** -/
theorem firstExact_iff_onTime (hlib : config.lib.Exact occurs) (hchrono : config.chrono.ReadsBack)
    (hjob : Fireable config job schedule) (hnew : job.lastFiredAt = none)
    (hrows : RowsSound config.chrono rows) (hcreate : createJob config.chrono job rows = .ok rows')
    (hrun : Run (CronWorld.step config)
      { rows := rows', clock := job.createdAt, ticks := [] } tr)
    (hspares : Run.StepsMeet (Spares job.id)
      { rows := rows', clock := job.createdAt, ticks := [] } tr) :
    (∀ x ∈ tr, FirstExact (occurs schedule) job.createdAt (x.2.log job.id)) ↔
      Run.StepsMeet (OnTime (occurs schedule) job)
        { rows := rows', clock := job.createdAt, ticks := [] } tr := by
  refine Run.forall_iff_stepsMeet_of_stepsMeet (A := Spares job.id)
    (J := CronWorld.Tracks config job)
    (P := fun s => FirstExact (occurs schedule) job.createdAt (s.log job.id))
    (fun s a s' hs hspares hstep => (hs.step hchrono hjob hspares hstep).1) ?_ hrun
    (tracks_of_createJob hchrono hjob hnew hrows hcreate) firstExact_nil hspares
  intro s a s' hs hspares hfirst hstep
  obtain ⟨-, ⟨now, env, rfl, hlist, -, hlog⟩ | ⟨hno, hlog⟩⟩ := hs.step hchrono hjob hspares hstep
  · have hdue : lastFire (s.log job.id) = none →
        (shouldFire config.lib (job.firedAt (lastFire (s.log job.id))) now = true ↔
          ∃ o, occurs schedule o ∧ minuteStart now ≤ o ∧ o ≤ now) :=
      fun hnone => shouldFire_new_iff hlib hjob.parses (by rw [hnone]; rfl)
    rw [hlog, hfirst.append_iff, ← lastFire_eq_none_iff]
    constructor
    · intro h _ hnone
      exact (hdue hnone).symm.trans (h hnone)
    · intro h hnone
      exact (hdue hnone).trans (h hlist hnone)
  · rw [hlog]
    refine iff_of_true hfirst ?_
    cases a with
    | ticked now env => exact fun hlist => absurd hlist (hno now env rfl)
    | created => trivial
    | deleted => trivial
    | reopened => trivial

end Exact

/-! ## A schedule once a minute -/

/-- The schedules of one second of the minute, here the first and the fiftieth. -/
def minutely : CronLibrary where
  Schedule := Int
  fromStr raw :=
    if raw = ("0 * * * * *" : Text) then .ok 0
    else if raw = ("50 * * * * *" : Text) then .ok 50
    else .error "Invalid expression: Invalid cron expression."
  after second t n :=
    some (((t - second * nanosPerSecond) / (60 * nanosPerSecond) + 1 + n) * (60 * nanosPerSecond) +
      second * nanosPerSecond)

def minutelyOccurs (second o : Int) : Prop :=
  (o - second * nanosPerSecond) % (60 * nanosPerSecond) = 0

theorem minutely_exact : minutely.Exact minutelyOccurs where
  wholeSecond second o ho := by
    unfold minutelyOccurs nanosPerSecond at ho
    unfold nanosPerSecond
    omega
  yields second t n o h := by
    obtain rfl := Option.some.inj h
    unfold minutelyOccurs nanosPerSecond
    omega
  ordered second t m n o o' hmn h h' := by
    obtain rfl := Option.some.inj h
    obtain rfl := Option.some.inj h'
    unfold nanosPerSecond
    omega
  fused second t n h := by cases h
  complete := fun (second : Int) t o ho hlt => by
    refine ⟨((o - second * nanosPerSecond) / (60 * nanosPerSecond) -
      (t - second * nanosPerSecond) / (60 * nanosPerSecond) - 1).toNat, congrArg some ?_⟩
    unfold minutelyOccurs nanosPerSecond at ho
    unfold nanosPerSecond
    omega

def sampleJob (schedule : Text) : CronJob where
  id := "job-1"
  agentId := "agent-a"
  schedule := schedule
  description := "sample cron job"
  prompt := "run"
  guardCommand := none
  workspaceRoot := "/tmp"
  channelId := "channel-1"
  guildId := none
  sourceChannel := "discord"
  isDm := false
  createdBy := "owner"
  createdAt := 30 * nanosPerSecond
  lastFiredAt := none
  guardTimeoutSeconds := 10
  enabled := true

def sampleConfig : CronConfig where
  lib := minutely
  chrono := Chrono.utc
  envByAgent := []
  defaultGuardTimeout := 10

/-- Nothing fails. -/
def calm : TickEnv where
  listError := none
  guard _ := .ok true
  sendError _ := none
  updateError _ := none
  traceId job := job.id

/-- The store with the one job in it. -/
def sampleWorld (schedule : Text) : CronWorld where
  rows := [rowOf Chrono.utc (sampleJob schedule)]
  clock := 30 * nanosPerSecond
  ticks := []

def sampleActions : List CronAction :=
  [.ticked (65 * nanosPerSecond) calm, .ticked (125 * nanosPerSecond) calm, .reopened,
    .ticked (250 * nanosPerSecond) calm]

theorem sampleJob_fireable {schedule : Text} {second : Int}
    (h : parseSchedule minutely schedule = .ok second) :
    Fireable sampleConfig (sampleJob schedule) second where
  parses := h
  noGuard := by simp [sampleJob]
  channel := by
    show (parseSourceChannel ("discord" : Text)).isSome
    decide
  enabled := rfl
  created := by
    show FourDigitYear (30 * nanosPerSecond)
    decide

theorem sampleActions_spared : ∀ a ∈ sampleActions, ∀ s, Spares "job-1" s a := by
  intro a ha s
  simp only [sampleActions, List.mem_cons, List.not_mem_nil, or_false] at ha
  rcases ha with rfl | rfl | rfl | rfl
  · exact fun job _ => ⟨rfl, rfl⟩
  · exact fun job _ => ⟨rfl, rfl⟩
  · trivial
  · exact fun job _ => ⟨rfl, rfl⟩

theorem exists_exec_everyMinute : ∃ tr,
    exec (CronWorld.step sampleConfig) (sampleWorld "* * * * *") sampleActions = some tr :=
  Option.isSome_iff_exists.mp (by decide +kernel)

theorem fires_after_first_everyMinute :
    ∃ tr, exec (CronWorld.step sampleConfig) (sampleWorld "* * * * *") sampleActions = some tr ∧
      ∀ x ∈ tr, OneFireEach (minutelyOccurs 0) (x.2.log "job-1") ∧
        ∃ row ∈ x.2.rows, parseRow Chrono.utc row =
          .ok ((sampleJob "* * * * *").firedAt (lastFire (x.2.log "job-1"))) := by
  obtain ⟨tr, htr⟩ := exists_exec_everyMinute
  exact ⟨tr, htr, fires_after_first minutely_exact Chrono.utc_readsBack
    (sampleJob_fireable rfl) rfl (rowsSound_nil Chrono.utc) rfl
    (run_of_exec htr) (Run.stepsMeet_of_exec htr sampleActions_spared)⟩

theorem firstExact_iff_onTime_everyMinute :
    ∃ tr, exec (CronWorld.step sampleConfig) (sampleWorld "* * * * *") sampleActions = some tr ∧
      ((∀ x ∈ tr, FirstExact (minutelyOccurs 0) (30 * nanosPerSecond) (x.2.log "job-1")) ↔
        Run.StepsMeet (OnTime (minutelyOccurs 0) (sampleJob "* * * * *"))
          (sampleWorld "* * * * *") tr) := by
  obtain ⟨tr, htr⟩ := exists_exec_everyMinute
  exact ⟨tr, htr, firstExact_iff_onTime minutely_exact Chrono.utc_readsBack
    (sampleJob_fireable rfl) rfl (rowsSound_nil Chrono.utc) rfl
    (run_of_exec htr) (Run.stepsMeet_of_exec htr sampleActions_spared)⟩

/-- A job for the fiftieth second of every minute is not fired by ticks that come early in the
minute: at none of the three is its minute over fifty seconds old. -/
theorem fiftieth_second_not_fired :
    sampleConfig.lib.Exact minutelyOccurs ∧ sampleConfig.chrono.ReadsBack ∧
      Fireable sampleConfig (sampleJob "50 * * * * *") (50 : Int) ∧
      ∃ tr, Run (CronWorld.step sampleConfig) (sampleWorld "50 * * * * *") tr ∧
        Run.StepsMeet (Spares "job-1") (sampleWorld "50 * * * * *") tr ∧
        ∃ x ∈ tr, ¬ FirstExact (minutelyOccurs 50) (sampleJob "50 * * * * *").createdAt
          (x.2.log "job-1") := by
  have hlog : (exec (CronWorld.step sampleConfig) (sampleWorld "50 * * * * *") sampleActions).map
      (fun tr => tr.any fun x => decide (x.2.log "job-1" = [(65 * nanosPerSecond, false),
        (125 * nanosPerSecond, false), (250 * nanosPerSecond, false)])) = some true := by
    decide +kernel
  obtain ⟨tr, htr, hany⟩ := Option.map_eq_some_iff.mp hlog
  obtain ⟨x, hx, hlog⟩ := List.any_eq_true.mp hany
  refine ⟨minutely_exact, Chrono.utc_readsBack, sampleJob_fireable rfl, tr,
    run_of_exec htr, Run.stepsMeet_of_exec htr sampleActions_spared, x, hx, fun hfirst => ?_⟩
  -- the fiftieth second of the minute of the creation is due at the first tick
  have hdue : Due (minutelyOccurs 50) (sampleJob "50 * * * * *").createdAt
      (65 * nanosPerSecond) := ⟨50 * nanosPerSecond, by simp [minutelyOccurs], by decide, by decide⟩
  have hfires := (hfirst [] _ _ _ (of_decide_eq_true hlog)).mpr ⟨hdue, by simp⟩
  exact Bool.noConfusion hfires.1

end Run
end SimpleClaw
