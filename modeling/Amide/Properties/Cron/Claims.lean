import Amide.Properties.Cron.Search
import Amide.Properties.Cron.Stores

/-!
# Claiming the jobs that are due

Claiming advances every due job before it is dispatched, and a schedule whose search fails throws
out of the whole claim: so the jobs of a store are served just when each due one runs again, later
than the claim, or only ran once (`claimDue_serves_iff`).  A job for the 29th of February is
accepted on the day before, runs, and then keeps every other job of its store from running
(`claimDue_blocked`).
-/

namespace Amide

open LocalTime

variable {env : CronEnv} {zone : TimeZone} {dueAt claimedAt : ℤ}

/-- A due job has been served: it is dispatched or marked as skipped, and is not due before the
claim again. -/
structure Served (claimedAt : ℤ) (dispatches : List AgentCronDispatch) (job job' : AgentCronJob) :
    Prop where
  id : job'.id = job.id
  taken : (∃ d ∈ dispatches, d.job = job') ∨ job'.lastSkippedAt = some claimedAt
  later : ∀ next, job'.nextRunAt = some next → claimedAt < next

/-- Claiming does not throw, serves every due job, and leaves the others alone. -/
def Serves (env : CronEnv) (dueAt claimedAt : ℤ) (store : CronStore) : Prop :=
  ∃ dispatches, (store.claimDue env dueAt claimedAt).2 = .ok dispatches ∧
    List.Forall₂ (fun state state' : CronJobsState =>
        List.Forall₂ (fun job job' =>
            if job.isDueJob dueAt = true then Served claimedAt dispatches job job' else job' = job)
          state.jobs state'.jobs)
      store.states (store.claimDue env dueAt claimedAt).1.states

/-- A schedule that is over, or goes on after an instant: its interval ends at a date that
exists, or some minute of the next 366 days matches and all that do are later (after the clock
was set back, minutes are looked at again). -/
def AgentCronSchedule.RunsAgain (zone : TimeZone) (after : ℤ) (schedule : AgentCronSchedule) :
    Prop :=
  match schedule.kind with
  | .once => True
  | .interval => (timeClip (after + schedule.intervalMs.getD 0)).isSome = true
  | .cron => ∀ fields, parseCronExpression schedule.expression = .ok fields →
      (∃ t, MatchesWithinYear zone after fields t) ∧
        ∀ t, MatchesWithinYear zone after fields t → after < t

/-! ## One job -/

/-- **Advancing a job** succeeds, and leads past the claim, just when its schedule goes on. -/
lemma advanceJob_later_iff {job : AgentCronJob} (haccepted : job.schedule.Accepted) :
    (∃ job', advanceJob claimedAt zone job = .ok job' ∧
        ∀ next, job'.nextRunAt = some next → claimedAt < next) ↔
      job.schedule.RunsAgain zone claimedAt := by
  rw [AgentCronSchedule.Accepted] at haccepted
  rw [AgentCronSchedule.RunsAgain, advanceJob, nextRunAtForSchedule]
  cases hkind : job.schedule.kind with
  | once => exact ⟨fun _ => trivial, fun _ => ⟨_, rfl, nofun⟩⟩
  | interval =>
    rw [hkind] at haccepted
    obtain ⟨intervalMs, hinterval, hpos⟩ := haccepted
    obtain ⟨n, rfl⟩ := Nat.exists_eq_succ_of_ne_zero hpos.ne'
    simp only [hinterval, Option.getD_some]
    cases hclip : timeClip (claimedAt + (n + 1 : ℕ)) with
    | none =>
      refine ⟨?_, nofun⟩
      rintro ⟨job', hjob, -⟩
      cases hjob
    | some run =>
      have hrun := timeClip_eq_some hclip
      refine ⟨fun _ => rfl, fun _ => ⟨_, rfl, ?_⟩⟩
      rintro next ⟨⟩
      omega
  | cron =>
    rw [hkind] at haccepted
    obtain ⟨fields, hparse⟩ := haccepted
    have hfields : (∀ fields', parseCronExpression job.schedule.expression = .ok fields' →
        (∃ t, MatchesWithinYear zone claimedAt fields' t) ∧
          ∀ t, MatchesWithinYear zone claimedAt fields' t → claimedAt < t) ↔
        (∃ t, MatchesWithinYear zone claimedAt fields t) ∧
          ∀ t, MatchesWithinYear zone claimedAt fields t → claimedAt < t := by
      refine ⟨fun h => h fields hparse, fun h fields' hparse' => ?_⟩
      cases hparse.symm.trans hparse'
      exact h
    rw [hfields, ← nextCronRunAfter_later_iff hparse]
    refine ⟨?_, ?_⟩
    · rintro ⟨job', hjob, hnext⟩
      obtain ⟨next, hdate, hjob⟩ := Except.of_bind hjob
      obtain ⟨run, hrun, rfl⟩ := Except.map_eq_ok_iff.mp hdate
      cases hjob
      exact ⟨run, hrun, hnext run rfl⟩
    · rintro ⟨run, hrun, hlt⟩
      rw [hrun]
      refine ⟨_, rfl, ?_⟩
      rintro next ⟨⟩
      exact hlt

/-! ## The job that is served -/

lemma served_iff {dispatches : List AgentCronDispatch} {job job' : AgentCronJob}
    (haccepted : job.schedule.Accepted) (hdue : job.isDueJob dueAt = true)
    (h : ClaimedAs env dueAt claimedAt dispatches job job') :
    Served claimedAt dispatches job job' ↔ job.schedule.RunsAgain env.zone claimedAt := by
  rw [ClaimedAs, if_pos hdue] at h
  obtain ⟨advanced, hadv, hcases⟩ := h
  rw [← advanceJob_later_iff haccepted]
  have hid := (advanceJob_step hadv).id
  refine ⟨fun hserved => ⟨advanced, hadv, ?_⟩, ?_⟩
  · have hlater := hserved.later
    rcases hcases with ⟨rfl, -⟩ | rfl
    · exact hlater
    · exact hlater
  · rintro ⟨job₁, hjob₁, hlater⟩
    cases hadv.symm.trans hjob₁
    rcases hcases with ⟨rfl, hd⟩ | rfl
    · exact ⟨hid, .inl hd, hlater⟩
    · exact ⟨hid, .inr rfl, hlater⟩

/-! ## The jobs of a store -/

/-- A claim throws only where a due job cannot be advanced. -/
lemma claimJobs_isOk {jobs : List AgentCronJob} {claimedJobIds : List String} {n : ℕ}
    (h : ∀ job ∈ jobs, job.isDueJob dueAt = true →
      ∃ job', advanceJob claimedAt env.zone job = .ok job') :
    ∃ result, claimJobs env dueAt claimedAt claimedJobIds n jobs = .ok result := by
  induction jobs generalizing n with
  | nil => exact ⟨_, rfl⟩
  | cons job jobs ih =>
    have ih' (n : ℕ) := ih (n := n) fun job' hmem => h job' (List.mem_cons_of_mem _ hmem)
    rw [claimJobs]
    split
    next hdue =>
      obtain ⟨advanced, hadv⟩ := h job List.mem_cons_self hdue
      rw [hadv]
      split_ifs
      · obtain ⟨result, hres⟩ := ih' n
        exact ⟨_, Except.bind_eq_ok_iff.mpr ⟨advanced, rfl,
          Except.bind_eq_ok_iff.mpr ⟨result, hres, rfl⟩⟩⟩
      · obtain ⟨result, hres⟩ := ih' (n + 1)
        exact ⟨_, Except.bind_eq_ok_iff.mpr ⟨advanced, rfl,
          Except.bind_eq_ok_iff.mpr ⟨result, hres, rfl⟩⟩⟩
    next hdue =>
      obtain ⟨result, hres⟩ := ih' n
      exact ⟨_, Except.bind_eq_ok_iff.mpr ⟨result, hres, rfl⟩⟩

lemma claimStates_isOk {states : List CronJobsState} {n : ℕ}
    (h : ∀ state ∈ states, ∀ job ∈ state.jobs, job.isDueJob dueAt = true →
      ∃ job', advanceJob claimedAt env.zone job = .ok job') :
    ∃ dispatches, (claimStates env dueAt claimedAt n states).2 = .ok dispatches := by
  induction states generalizing n with
  | nil => exact ⟨[], rfl⟩
  | cons state states ih =>
    obtain ⟨result, hres⟩ : ∃ result, claimJobs env dueAt claimedAt
        (state.dispatches.map AgentCronDispatchRecord.jobId) n state.jobs = .ok result :=
      claimJobs_isOk (h state List.mem_cons_self)
    have hstate : claimDueInState env dueAt claimedAt n state = .ok
        (⟨result.1, state.dispatches ++ result.2.map Prod.fst⟩, result.2.map Prod.snd) :=
      Except.bind_eq_ok_iff.mpr ⟨result, hres, rfl⟩
    rw [claimStates, hstate]
    obtain ⟨dispatches, hrest⟩ := ih (n := n + (result.2.map Prod.snd).length)
      fun state' hmem => h state' (List.mem_cons_of_mem _ hmem)
    exact ⟨_, Except.map_eq_ok_iff.mpr ⟨dispatches, hrest, rfl⟩⟩

/-! ## A leap year -/

section LeapYear

/-- 2024-02-29T00:00Z. -/
def leapDay : ℤ := 1709164800000

def leapFields : CronFields := ⟨[0], [0], [29], [2], List.range 8⟩

def hostAt (name : String) (now : ℤ) : CronEnv := ⟨.universal, fun _ => none, fun _ => name, now⟩

def inputOf (scheduleText : String) : CreateAgentCronJobInput where
  activeSessionId := "live"
  sessionId := "session"
  sessionFile := "session.jsonl"
  cwd := "/"
  prompt := "run"
  scheduleText := scheduleText

/-- Made a minute before the leap day. -/
def leapJob : AgentCronJob :=
  newJob (hostAt "leap" (leapDay - 60000)) (inputOf "0 0 29 2 *") .cron none "run"
    { kind := .cron, expression := "0 0 29 2 *" } leapDay

def tickJob : AgentCronJob :=
  newJob (hostAt "tick" (leapDay - 60000)) (inputOf "every 10s") .cron none "run"
    { kind := .interval, expression := "every 10s", intervalMs := some 10000 } (leapDay - 50000)

lemma day_mul_msPerDay (d : ℤ) : day (d * msPerDay) = d :=
  Int.mul_ediv_cancel d (by decide)

/-- The calendar of a day is that of its first instant. -/
lemma dayOfMarchYear_day (t : ℤ) : dayOfMarchYear t = dayOfMarchYear (day t * msPerDay) := by
  simp only [dayOfMarchYear, day_mul_msPerDay]

lemma marchMonth_day (t : ℤ) : marchMonth t = marchMonth (day t * msPerDay) := by
  rw [marchMonth, dayOfMarchYear_day]
  rfl

lemma month_day (t : ℤ) : month t = month (day t * msPerDay) := by
  rw [month, marchMonth_day]
  rfl

lemma date_day (t : ℤ) : date t = date (day t * msPerDay) := by
  rw [date, marchMonth_day, dayOfMarchYear_day]
  rfl

/-- There is no 29th of February in the 366 days after this one. -/
lemma not_leapDay : ∀ d < 366, ¬(month ((19783 + (d : ℕ)) * msPerDay) = 2 ∧
    date ((19783 + (d : ℕ)) * msPerDay) = 29) := by
  decide +kernel

lemma not_matches_leapFields {t : ℤ}
    (h : MatchesWithinYear .universal leapDay leapFields t) : False := by
  obtain ⟨k, hk, hspan, hmatch⟩ := h
  have hfirst : firstCandidate .universal leapDay = some (leapDay + 60000) := by decide
  have hle : leapDay + 60000 ≤ t := candidateMinute_le (Nat.zero_le k) hfirst hk
  rw [hfirst, Option.getD_some] at hspan
  simp only [TimeZone.localTime_universal, matchesCronFields, leapFields, Bool.and_eq_true,
    List.contains_iff_mem, List.mem_singleton] at hmatch
  obtain ⟨⟨⟨⟨hminute, hhour⟩, hdate⟩, hmonth⟩, -⟩ := hmatch
  have hmonth' : month t = 2 := by omega
  have hdate' : date t = 29 := by omega
  have hrange : 19783 ≤ day t ∧ day t < 19783 + 366 := by
    simp only [leapDay, searchSpan] at hle hspan
    simp only [minutes, hours, msPerMinute, day, msPerDay] at hminute hhour ⊢
    omega
  obtain ⟨d, hd⟩ := Int.eq_ofNat_of_zero_le (Int.sub_nonneg.mpr hrange.1)
  have hday : day t = 19783 + (d : ℕ) := by omega
  rw [month_day, hday] at hmonth'
  rw [date_day, hday] at hdate'
  exact not_leapDay d (by omega) ⟨hmonth', hdate'⟩

lemma parse_leap : parseCronExpression "0 0 29 2 *" = .ok leapFields := by decide +kernel

/-- On the leap day the search for the next one fails. -/
lemma nextCronRunAfter_leap : nextCronRunAfter .universal "0 0 29 2 *" leapDay =
    .error "Cron schedule did not match within one year: 0 0 29 2 *" := by
  have hsearch : cronSearch .universal leapDay leapFields (searchSpan + 1) = none := by
    refine Option.eq_none_iff_forall_ne_some.mpr fun t ht => ?_
    obtain ⟨k, hk, hspan, hmatch, -⟩ := (cronSearch_eq_some_iff 0).mp ht
    exact not_matches_leapFields ⟨k, hk, hspan, hmatch⟩
  rw [nextCronRunAfter_eq .universal leapDay parse_leap, hsearch]
  rfl

lemma advanceJob_leap : advanceJob leapDay .universal leapJob =
    .error "Cron schedule did not match within one year: 0 0 29 2 *" := by
  change (nextCronRunAfter .universal "0 0 29 2 *" leapDay >>= _) >>= _ = _
  rw [nextCronRunAfter_leap]
  rfl

/-- The two jobs are created one after the other. -/
def creatingBoth : List (CronLabel Unit) :=
  [.start () (.create (inputOf "0 0 29 2 *")) (hostAt "leap" (leapDay - 60000)), .read (),
    .write (), .start () (.create (inputOf "every 10s")) (hostAt "tick" (leapDay - 60000)),
    .read (), .write ()]

lemma run_leapYear : ∃ (labels : List (CronLabel Unit)) (s : CronSystem Unit),
    cronMachine.Run ⟨.file {}, fun _ => .idle, 0, []⟩ labels s ∧
      s.store = .file { jobs := [leapJob, tickJob] } := by
  have hperform : (creatingBoth.foldlM CronSystem.perform
      ⟨.file {}, fun _ => .idle, 0, []⟩).map CronSystem.store =
        some (.file { jobs := [leapJob, tickJob] }) := by decide +kernel
  exact ⟨creatingBoth, exists_run_of_perform hperform⟩

lemma claimDue_leapYear {store : CronStore}
    (hstore : store = .file { jobs := [leapJob, tickJob] }) :
    store.claimDue (hostAt "dispatch" leapDay) leapDay leapDay =
      (store, .error "Cron schedule did not match within one year: 0 0 29 2 *") := by
  have hdue : leapJob.isDueJob leapDay = true := by decide +kernel
  have hclaim : claimDueInState (hostAt "dispatch" leapDay) leapDay leapDay 0
      { jobs := [leapJob, tickJob] } =
        .error "Cron schedule did not match within one year: 0 0 29 2 *" := by
    rw [claimDueInState, claimJobs, if_pos hdue, show (hostAt "dispatch" leapDay).zone =
      .universal from rfl, advanceJob_leap]
    rfl
  rw [hstore, CronStore.claimDue, CronStore.states, claimStates, hclaim]
  rfl

end LeapYear

/-- **When claiming serves the store**: when every due job runs again after the claim, or only
ran once. -/
theorem claimDue_serves_iff {P : Type*} [DecidableEq P] {s₀ s : CronSystem P}
    {labels : List (CronLabel P)} (h₀ : s₀.Initial) (hrun : cronMachine.Run s₀ labels s)
    (env : CronEnv) (dueAt claimedAt : ℤ) :
    Serves env dueAt claimedAt s.store ↔ ∀ job ∈ s.store.readJobs, job.isDueJob dueAt = true →
        job.schedule.RunsAgain env.zone claimedAt := by
  have haccepted := (accepted_of_run h₀ hrun).store
  have hstates : (s.store.claimDue env dueAt claimedAt).1.states =
      (claimStates env dueAt claimedAt 0 s.store.states).1 :=
    CronStore.states_withStates claimStates_step.length_eq.symm
  -- a claim that does not throw has claimed every due job
  have hserved {dispatches : List AgentCronDispatch}
      (hok : (s.store.claimDue env dueAt claimedAt).2 = .ok dispatches) :
      List.Forall₂ (fun state state' : CronJobsState =>
          List.Forall₂ (fun job job' =>
              if job.isDueJob dueAt = true then Served claimedAt dispatches job job'
              else job' = job)
            state.jobs state'.jobs)
        s.store.states (s.store.claimDue env dueAt claimedAt).1.states ↔
      ∀ state ∈ s.store.states, ∀ job ∈ state.jobs, job.isDueJob dueAt = true →
        job.schedule.RunsAgain env.zone claimedAt := by
    rw [hstates]
    refine forall₂_iff_forall (claimStates_spec hok) fun state hstate state' hclaimed => ?_
    refine forall₂_iff_forall hclaimed fun job hjob job' hjob' => ?_
    by_cases hdue : job.isDueJob dueAt = true
    · rw [if_pos hdue, served_iff (haccepted job (CronStore.mem_readJobs.mpr ⟨state, hstate, hjob⟩))
        hdue hjob']
      exact ⟨fun h _ => h, fun h => h hdue⟩
    · rw [ClaimedAs, if_neg hdue] at hjob'
      rw [if_neg hdue]
      exact ⟨fun _ h => absurd h hdue, fun _ => hjob'⟩
  refine ⟨?_, fun hagain => ?_⟩
  · rintro ⟨dispatches, hok, hforall⟩ job hjob
    obtain ⟨state, hstate, hmem⟩ := CronStore.mem_readJobs.mp hjob
    exact (hserved hok).mp hforall state hstate job hmem
  · have hstates' : ∀ state ∈ s.store.states, ∀ job ∈ state.jobs, job.isDueJob dueAt = true →
        job.schedule.RunsAgain env.zone claimedAt := fun state hstate job hmem =>
      hagain job (CronStore.mem_readJobs.mpr ⟨state, hstate, hmem⟩)
    obtain ⟨dispatches, hok⟩ : ∃ dispatches,
        (claimStates env dueAt claimedAt 0 s.store.states).2 = .ok dispatches := by
      refine claimStates_isOk fun state hstate job hmem hdue => ?_
      have hjob := haccepted job (CronStore.mem_readJobs.mpr ⟨state, hstate, hmem⟩)
      obtain ⟨job', hjob', -⟩ :=
        (advanceJob_later_iff hjob).mpr (hstates' state hstate job hmem hdue)
      exact ⟨job', hjob'⟩
    exact ⟨dispatches, hok, (hserved hok).mpr hstates'⟩

/-- In the store of the leap year this is no help. -/
theorem claimDue_serves_leapYear : ∃ s : CronSystem Unit,
    s.store = .file { jobs := [leapJob, tickJob] } ∧
      (Serves (hostAt "dispatch" leapDay) leapDay leapDay s.store ↔
        ∀ job ∈ s.store.readJobs, job.isDueJob leapDay = true →
          job.schedule.RunsAgain .universal leapDay) := by
  obtain ⟨labels, s, hrun, hstore⟩ := run_leapYear
  exact ⟨s, hstore, claimDue_serves_iff ⟨by decide, fun _ => rfl⟩ hrun (hostAt "dispatch" leapDay)
    leapDay leapDay⟩

/-- **One schedule blocks the store**: two jobs are created, both are due, and claiming throws for
one of them and leaves the store as it was. -/
theorem claimDue_blocked : ∃ (labels : List (CronLabel Unit)) (s : CronSystem Unit),
    cronMachine.Run ⟨.file {}, fun _ => .idle, 0, []⟩ labels s ∧
      tickJob ∈ s.store.readJobs ∧ tickJob.isDueJob leapDay = true ∧
      s.store.claimDue (hostAt "dispatch" leapDay) leapDay leapDay =
        (s.store, .error "Cron schedule did not match within one year: 0 0 29 2 *") ∧
      ¬Serves (hostAt "dispatch" leapDay) leapDay leapDay s.store := by
  obtain ⟨labels, s, hrun, hstore⟩ := run_leapYear
  have hclaim := claimDue_leapYear hstore
  have htick : tickJob.isDueJob leapDay = true := by decide +kernel
  refine ⟨labels, s, hrun, ?_, htick, hclaim, ?_⟩
  · rw [hstore]
    exact List.mem_append_left _ (List.mem_cons_of_mem _ List.mem_cons_self)
  · rintro ⟨dispatches, hok, -⟩
    rw [hclaim] at hok
    cases hok

end Amide
