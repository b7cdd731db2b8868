import CrashLab.TickCoverage

namespace CrashLab.Cron

open JsStrings LeastWalks

def maxMisfireScanTicks : ℕ := 100000

structure MisfireRecord where
  scheduleId : JsString
  missed : ℕ
  policy : MisfirePolicy
deriving DecidableEq

structure MisfireRecovery where
  schedules : List Schedule
  history : List ScheduledRun
  misfires : List MisfireRecord
deriving DecidableEq

def Schedule.misfire (schedule : Schedule) : MisfirePolicy :=
  (schedule.policy.map (·.misfire)).getD .runImmediately

/-- The ticks past the anchor and at or before `now`, the one of the running minute among them. -/
def missedTicks (expr : CronExpression) (now anchor : ℕ) : List ℕ :=
  walk (nextRun expr) now maxMisfireScanTicks anchor

def passOver (schedule : Schedule) (missed : List ℕ) : Schedule × Option MisfireRecord :=
  match missed.getLast? with
  | none => (schedule, none)
  | some lastMissed => ({ schedule with lastRunAt := some lastMissed }, some ⟨schedule.id, missed.length, .skip⟩)

def recoverSchedule (now : ℕ) (schedule : Schedule) : Schedule × Option MisfireRecord :=
  if schedule.enabled = false then (schedule, none)
  else if schedule.misfire ≠ .skip then (schedule, none)
  else
    match parseCron schedule.cron, schedule.anchor with
    | .ok expr, some anchor => passOver schedule (missedTicks expr now anchor)
    | _, _ => (schedule, none)

def applyMisfirePolicies (schedules : List Schedule) (history : List ScheduledRun) (now : ℕ) : MisfireRecovery where
  schedules := schedules.map fun schedule => (recoverSchedule now schedule).1
  history := history
  misfires := schedules.filterMap fun schedule => (recoverSchedule now schedule).2

section Recovery

variable {now anchor minute bound t : ℕ} {schedule : Schedule} {expr : CronExpression}

theorem passOver_id (schedule : Schedule) (missed : List ℕ) : (passOver schedule missed).1.id = schedule.id := by
  unfold passOver
  split <;> rfl

theorem recoverSchedule_id (now : ℕ) (schedule : Schedule) : (recoverSchedule now schedule).1.id = schedule.id := by
  unfold recoverSchedule
  split_ifs
  · rfl
  · rfl
  · split
    · exact passOver_id _ _
    · rfl

theorem recoverSchedule_of_run (h : schedule.misfire = .runImmediately) :
    (recoverSchedule now schedule).1 = schedule := by
  unfold recoverSchedule
  rw [h]
  split
  · rfl
  · rw [if_pos (by decide)]

theorem recoverSchedule_live (h : schedule.misfire = .skip) (live : schedule.Live expr anchor) :
    recoverSchedule now schedule = passOver schedule (missedTicks expr now anchor) := by
  unfold recoverSchedule
  rw [live.enabled, if_neg (by decide), h, if_neg (by decide), live.parsed, live.anchored]

theorem live_or_recoverSchedule_eq (now : ℕ) (schedule : Schedule) :
    (∃ expr anchor, schedule.Live expr anchor) ∨ (recoverSchedule now schedule).1 = schedule := by
  unfold recoverSchedule
  cases henabled : schedule.enabled with
  | false => exact Or.inr (by rw [if_pos rfl])
  | true =>
    cases hparsed : parseCron schedule.cron with
    | error message => exact Or.inr (by split_ifs <;> rfl)
    | ok expr =>
      cases hanchor : schedule.anchor with
      | none => exact Or.inr (by split_ifs <;> rfl)
      | some anchor => exact Or.inl ⟨expr, anchor, henabled, hparsed, hanchor⟩

end Recovery

section Quiet

variable {now anchor minute bound t : ℕ} {schedule : Schedule} {expr : CronExpression}

def Quiet (expr : CronExpression) (anchor minute : ℕ) : Prop :=
  ∀ t, nextRun expr anchor = some t → (minute + 1) * minuteMs ≤ t

theorem next_minute_le (haligned : minuteMs ∣ t) (hlt : bound < t) : (bound / minuteMs + 1) * minuteMs ≤ t :=
  startAfter_le hlt haligned

theorem quiet_self (expr : CronExpression) (created : ℕ) : Quiet expr created (created / minuteMs) := by
  intro t ht
  have find := nextRun_findsLeast expr
  exact next_minute_le (find.holds ht).aligned (find.lt ht)

theorem Quiet.step (h : Quiet expr anchor minute) (hbound : bound / minuteMs ≤ minute + 1) (fuel : ℕ) :
    walk (nextRun expr) bound (fuel + 2) anchor = [] ∧ Quiet expr anchor (bound / minuteMs) ∨
      ∃ t, nextRun expr anchor = some t ∧ t ≤ bound ∧ walk (nextRun expr) bound (fuel + 2) anchor = [t] ∧
        Quiet expr t (bound / minuteMs) := by
  have find := nextRun_findsLeast expr
  rcases walk_cases (nextRun expr) bound (fuel + 2) anchor with hnil | ⟨n, t, hn, ht, hle, hwalk⟩
  · refine Or.inl ⟨hnil, ?_⟩
    intro t ht
    exact next_minute_le (find.holds ht).aligned (next_of_walk_eq_nil (Nat.succ_pos _) hnil ht)
  · refine Or.inr ⟨t, ht, hle, ?_⟩
    have hquiet : Quiet expr t (bound / minuteMs) := by
      intro u hu
      have hstart := h t ht
      have hnext := next_minute_le (find.holds hu).aligned (find.lt hu)
      have hminute : minute + 1 ≤ t / minuteMs := (Nat.le_div_iff_mul_le (by decide)).mpr hstart
      exact (Nat.mul_le_mul_right minuteMs (by omega)).trans hnext
    have hrest : walk (nextRun expr) bound n t = [] := by
      apply walk_eq_nil_of_forall
      intro u hu
      exact (lt_startAfter bound).trans_le (hquiet u hu)
    exact ⟨by rw [hwalk, hrest], hquiet⟩

theorem floorToMinute_div (now : ℕ) : floorToMinute now / minuteMs = now / minuteMs :=
  Nat.mul_div_cancel _ (by decide)

theorem evaluateSchedule_quiet {input : TickInput} (live : schedule.Live expr anchor)
    (h : Quiet expr anchor (input.now / minuteMs)) : evaluateSchedule input schedule = .unchanged := by
  have hdue : input.dueTicks expr anchor = [] := by
    apply walk_eq_nil_of_forall
    intro t ht
    exact (floorToMinute_le _).trans_lt ((lt_startAfter input.now).trans_le (h t ht))
  rw [evaluateSchedule_live live, hdue]
  rfl

theorem recoverSchedule_quiet (hskip : schedule.misfire = .skip)
    (hquiet : ∀ {expr anchor}, schedule.Live expr anchor → Quiet expr anchor minute)
    (hnow : now / minuteMs ≤ minute + 1) :
    ∃ lastRunAt, (recoverSchedule now schedule).1 = { schedule with lastRunAt := lastRunAt } ∧
      ∀ {expr anchor}, Schedule.Live { schedule with lastRunAt := lastRunAt } expr anchor →
        Quiet expr anchor (now / minuteMs) := by
  by_cases hlive : ∃ expr anchor, schedule.Live expr anchor
  · obtain ⟨expr, anchor, live⟩ := hlive
    obtain ⟨fuel, hfuel⟩ : ∃ fuel, maxMisfireScanTicks = fuel + 2 := ⟨99998, by norm_num [maxMisfireScanTicks]⟩
    rw [recoverSchedule_live hskip live, missedTicks, hfuel]
    rcases (hquiet live).step hnow fuel with ⟨hnil, hrest⟩ | ⟨t, ht, -, hwalk, hrest⟩
    · rw [hnil]
      refine ⟨schedule.lastRunAt, rfl, ?_⟩
      intro expr' anchor' live'
      obtain ⟨rfl, rfl⟩ := live.unique live'
      exact hrest
    · rw [hwalk]
      refine ⟨some t, rfl, ?_⟩
      intro expr' anchor' live'
      have hfired : Schedule.Live { schedule with lastRunAt := some t } expr t := ⟨live.enabled, live.parsed, rfl⟩
      obtain ⟨rfl, rfl⟩ := hfired.unique live'
      exact hrest
  · refine ⟨schedule.lastRunAt, ?_, fun live => absurd ⟨_, _, live⟩ hlive⟩
    rcases live_or_recoverSchedule_eq now schedule with h | h
    · exact absurd h hlive
    · exact h

end Quiet

end CrashLab.Cron

namespace CrashLab.Cron

open Histories JsStrings LeastWalks
open CampaignQuotas (SchedulingWindows isWindowOpen)

/-- A tick that got the lock: its `now`, the windows of the environment, and the clock its record is written at. -/
structure TickRequest where
  now : ℕ
  windows : SchedulingWindows := {}
  clock : ℕ
deriving DecidableEq

def systemId : JsString := ofString "system"

def tickRecordId (minuteSlot : ℕ) : JsString := ofString "tick-tick_" ++ numberText minuteSlot

def tickRecord (request : TickRequest) (created : ℕ) : ScheduledRun where
  id := tickRecordId (request.now / minuteMs)
  scheduleId := systemId
  scheduleName := ofString "Tick Evaluation"
  cron := ofString "* * * * *"
  scheduledFor := request.now
  executedAt := request.clock
  tickCount := created
  caughtUp := false
  tags := ["system:tick"]
  idempotencyKey := scheduledCampaignIdempotencyKey systemId request.now
  campaignClass := defaultScheduleClass

def alreadyProcessed (history : List ScheduledRun) (now : ℕ) : Bool :=
  history.any fun run => run.id = tickRecordId (now / minuteMs) || run.scheduledFor = now

namespace SchedulerState

/-- What the route hands to `evaluateTick`. -/
def recovered (state : SchedulerState) (request : TickRequest) : TickInput where
  schedules := (applyMisfirePolicies state.schedules state.history request.now).schedules
  history := (applyMisfirePolicies state.schedules state.history request.now).history
  now := request.now
  windows := some request.windows

/-- `POST /api/schedules/tick`, less its ledger. -/
def tick (state : SchedulerState) (request : TickRequest) : SchedulerState :=
  if alreadyProcessed state.history request.now then state
  else
    let outcome := evaluateTick (state.recovered request)
    { schedules := outcome.schedules
      history := outcome.history ++ [tickRecord request outcome.created.length] }

end SchedulerState

section Records

theorem tickRecordId_injective : Function.Injective tickRecordId := by
  intro m n h
  exact numberText_injective (List.append_cancel_left h)

theorem newRun_id_ne (input : TickInput) (schedule : Schedule) (dueTicks : List ℕ) (lastTick minute : ℕ) :
    (newRun input schedule dueTicks lastTick).id ≠ tickRecordId minute := by
  have hrun : ofString "srun-" = 0x73 :: ofString "run-" := by decide
  have htick : ofString "tick-tick_" = 0x74 :: ofString "ick-tick_" := by decide
  rw [newRun, tickRecordId, hrun, htick]
  simp

def RecordedUpTo (minute : ℕ) (history : List ScheduledRun) : Prop :=
  ∀ run ∈ history, run.scheduledFor < (minute + 1) * minuteMs ∧ ∀ k, run.id = tickRecordId k → k ≤ minute

theorem RecordedUpTo.mono {minute later : ℕ} {history : List ScheduledRun} (h : RecordedUpTo minute history)
    (hle : minute ≤ later) : RecordedUpTo later history := by
  intro run hrun
  obtain ⟨hfor, hid⟩ := h run hrun
  exact ⟨hfor.trans_le (Nat.mul_le_mul_right _ (Nat.succ_le_succ hle)), fun k hk => (hid k hk).trans hle⟩

theorem RecordedUpTo.fresh {minute now : ℕ} {history : List ScheduledRun} (h : RecordedUpTo minute history)
    (hprocessed : alreadyProcessed history now = true) : now / minuteMs ≤ minute := by
  obtain ⟨run, hrun, hsame⟩ := List.any_eq_true.mp hprocessed
  obtain ⟨hfor, hid⟩ := h run hrun
  rw [Bool.or_eq_true, decide_eq_true_iff, decide_eq_true_iff] at hsame
  rcases hsame with hsame | rfl
  · exact hid _ hsame
  · exact Nat.lt_succ_iff.mp (Nat.div_lt_of_lt_mul (by rwa [Nat.mul_comm]))

theorem mem_created {input : TickInput} {run : ScheduledRun} (h : run ∈ (evaluateTick input).created) :
    ∃ schedule expr anchor lastTick, run = newRun input schedule (input.dueTicks expr anchor) lastTick ∧
      (input.dueTicks expr anchor).getLast? = some lastTick := by
  obtain ⟨schedule, -, hrun⟩ := List.mem_filterMap.mp ((Sorting.mem_sortByKey _).mp h)
  cases hverdict : evaluateSchedule input schedule with
  | unchanged => simp [hverdict, Verdict.run] at hrun
  | deferred held => simp [hverdict, Verdict.run] at hrun
  | fired lastTick created =>
    rw [hverdict, Verdict.run] at hrun
    obtain ⟨expr, anchor, -, hlast, -, ⟨-, rfl⟩ | ⟨-, rfl⟩⟩ := evaluateSchedule_fired hverdict
    · cases hrun
    · exact ⟨schedule, expr, anchor, lastTick, (Option.some.inj hrun).symm, hlast⟩

theorem RecordedUpTo.tick {state : SchedulerState} {request : TickRequest} {minute : ℕ}
    (h : RecordedUpTo minute state.history) (hle : minute ≤ request.now / minuteMs) :
    RecordedUpTo (request.now / minuteMs) (state.tick request).history := by
  unfold SchedulerState.tick
  split
  · exact h.mono hle
  · intro run hrun
    have hnow := lt_startAfter request.now
    change run ∈ (state.history ++ (evaluateTick (state.recovered request)).created) ++ [_] at hrun
    rw [List.mem_append, List.mem_append, List.mem_singleton] at hrun
    rcases hrun with (hrun | hrun) | rfl
    · exact h.mono hle run hrun
    · obtain ⟨schedule, expr, anchor, lastTick, rfl, hlast⟩ := mem_created hrun
      obtain ⟨-, hdue, -⟩ := dueTicks_last hlast
      refine ⟨(hdue.trans (floorToMinute_le _)).trans_lt hnow, ?_⟩
      intro k hk
      exact absurd hk (newRun_id_ne _ _ _ _ k)
    · exact ⟨hnow, fun k hk => (tickRecordId_injective hk).ge⟩

end Records

section Steps

variable {state : SchedulerState} {request : TickRequest} {x : Schedule}

theorem tick_single (hx : entries state.schedules x.id = [x]) (hid : x.id ≠ systemId)
    (hfresh : alreadyProcessed state.history request.now = false) :
    entries (state.tick request).schedules x.id =
        [(evaluateSchedule (state.recovered request) (recoverSchedule request.now x).1).schedule
          (recoverSchedule request.now x).1] ∧
      runsOf (state.tick request).history x.id = runsOf state.history x.id ++
        (evaluateSchedule (state.recovered request) (recoverSchedule request.now x).1).run.toList := by
  have hsame := recoverSchedule_id request.now x
  have hentries : entries (state.recovered request).schedules (recoverSchedule request.now x).1.id =
      [(recoverSchedule request.now x).1] := by
    rw [hsame]
    exact (entries_map (recoverSchedule_id request.now) x.id).trans (by rw [hx, List.map_singleton])
  have hentry := entries_evaluateTick_single hentries
  have hruns := runsOf_evaluateTick hentries
  rw [hsame] at hentry hruns
  rw [SchedulerState.tick, hfresh]
  refine ⟨hentry, ?_⟩
  change runsOf ((evaluateTick (state.recovered request)).history ++ [_]) x.id = _
  have hrecord : runsOf [tickRecord request (evaluateTick (state.recovered request)).created.length] x.id = [] := by
    simp [runsOf, tickRecord, hid.symm]
  rw [runsOf_append, hrecord, List.append_nil]
  exact hruns

end Steps

end CrashLab.Cron
