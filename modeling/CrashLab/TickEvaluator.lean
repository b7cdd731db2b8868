import CrashLab.ScheduleStore

namespace CrashLab.Cron

open JsStrings Sorting LeastWalks Capacity
open CampaignQuotas (SchedulingWindows campaignClassPriority isWindowOpen secondsUntilWindowOpens)

def defaultMaxCatchUpTicks : ℕ := 100000

def floorToMinute (now : ℕ) : ℕ := now / minuteMs * minuteMs

theorem floorToMinute_le (now : ℕ) : floorToMinute now ≤ now := Nat.div_mul_le_self now minuteMs

structure TickInput where
  schedules : List Schedule
  history : List ScheduledRun
  now : ℕ
  maxCatchUpTicks : Option ℕ := none
  windows : Option SchedulingWindows := none

structure DeferredSchedule where
  scheduleId : JsString
  campaignClass : CampaignClass
  opensInSeconds : ℕ
deriving DecidableEq

structure TickOutcome where
  schedules : List Schedule
  history : List ScheduledRun
  created : List ScheduledRun
  deferred : List DeferredSchedule
deriving DecidableEq

section Evaluation

inductive Verdict where
  | unchanged
  | deferred (held : DeferredSchedule)
  | fired (lastTick : ℕ) (run : Option ScheduledRun)
deriving DecidableEq

def Verdict.schedule (schedule : Schedule) : Verdict → Schedule
  | fired lastTick _ => { schedule with lastRunAt := some lastTick }
  | _ => schedule

def Verdict.run : Verdict → Option ScheduledRun
  | fired _ run => run
  | _ => none

def Verdict.held : Verdict → Option DeferredSchedule
  | deferred held => some held
  | _ => none

def Schedule.anchor (schedule : Schedule) : Option ℕ := schedule.lastRunAt.or schedule.createdAt

def TickInput.openWindows (input : TickInput) : SchedulingWindows := input.windows.getD {}

def TickInput.maxTicks (input : TickInput) : ℕ := input.maxCatchUpTicks.getD defaultMaxCatchUpTicks

/-- The ticks past the anchor and at or before the minute of `now`. -/
def TickInput.dueTicks (input : TickInput) (expr : CronExpression) (anchor : ℕ) : List ℕ :=
  walk (nextRun expr) (floorToMinute input.now) input.maxTicks anchor

def scheduledCampaignIdempotencyKey (scheduleId : JsString) (scheduledFor : ℕ) : JsString :=
  ofString "schedule:" ++ scheduleId ++ ofString ":" ++ numberText scheduledFor

def newRun (input : TickInput) (schedule : Schedule) (dueTicks : List ℕ) (lastTick : ℕ) : ScheduledRun where
  id := ofString "srun-" ++ schedule.id ++ ofString "-" ++ numberText lastTick
  scheduleId := schedule.id
  scheduleName := schedule.name
  cron := schedule.cron
  scheduledFor := lastTick
  executedAt := input.now
  tickCount := dueTicks.length
  caughtUp := 1 < dueTicks.length
  tags := [scheduledRunTag]
  idempotencyKey := scheduledCampaignIdempotencyKey schedule.id lastTick
  campaignClass := schedule.firingClass

def alreadyRecorded (history : List ScheduledRun) (id : JsString) (lastTick : ℕ) : Bool :=
  history.any fun run => run.scheduleId = id && run.scheduledFor = lastTick

def evaluateSchedule (input : TickInput) (schedule : Schedule) : Verdict :=
  if schedule.enabled = false then .unchanged
  else
    match parseCron schedule.cron, schedule.anchor with
    | .ok expr, some anchor =>
      match (input.dueTicks expr anchor).getLast? with
      | none => .unchanged
      | some lastTick =>
        if isWindowOpen input.openWindows schedule.firingClass input.now = false then
          .deferred ⟨schedule.id, schedule.firingClass,
            secondsUntilWindowOpens input.openWindows schedule.firingClass input.now⟩
        else if alreadyRecorded input.history schedule.id lastTick then .fired lastTick none
        else .fired lastTick (some (newRun input schedule (input.dueTicks expr anchor) lastTick))
    | _, _ => .unchanged

def evaluateTick (input : TickInput) : TickOutcome :=
  let created := input.schedules.filterMap fun schedule => (evaluateSchedule input schedule).run
  let ordered := sortByKey (fun run => campaignClassPriority run.campaignClass) created
  { schedules := input.schedules.map fun schedule => (evaluateSchedule input schedule).schedule schedule
    history := input.history ++ ordered
    created := ordered
    deferred := input.schedules.filterMap fun schedule => (evaluateSchedule input schedule).held }

end Evaluation

section Verdicts

/-- The schedule is up for evaluation: `expr` is what it stands for, `anchor` where its ticks count from. -/
structure Schedule.Live (schedule : Schedule) (expr : CronExpression) (anchor : ℕ) : Prop where
  enabled : schedule.enabled = true
  parsed : parseCron schedule.cron = .ok expr
  anchored : schedule.anchor = some anchor

theorem Schedule.Live.unique {schedule : Schedule} {expr expr' : CronExpression} {anchor anchor' : ℕ}
    (h : schedule.Live expr anchor) (h' : schedule.Live expr' anchor') : expr = expr' ∧ anchor = anchor' :=
  ⟨Except.ok.inj (h.parsed.symm.trans h'.parsed), Option.some.inj (h.anchored.symm.trans h'.anchored)⟩

variable {input : TickInput} {schedule : Schedule} {expr : CronExpression} {anchor lastTick : ℕ}

theorem evaluateSchedule_live (h : schedule.Live expr anchor) : evaluateSchedule input schedule =
    match (input.dueTicks expr anchor).getLast? with
    | none => .unchanged
    | some lastTick =>
      if isWindowOpen input.openWindows schedule.firingClass input.now = false then
        .deferred ⟨schedule.id, schedule.firingClass,
          secondsUntilWindowOpens input.openWindows schedule.firingClass input.now⟩
      else if alreadyRecorded input.history schedule.id lastTick then .fired lastTick none
      else .fired lastTick (some (newRun input schedule (input.dueTicks expr anchor) lastTick)) := by
  rw [evaluateSchedule, h.enabled, if_neg (by decide), h.parsed, h.anchored]

theorem live_or_unchanged (input : TickInput) (schedule : Schedule) :
    (∃ expr anchor, schedule.Live expr anchor) ∨ evaluateSchedule input schedule = .unchanged := by
  cases henabled : schedule.enabled with
  | false => exact Or.inr (by rw [evaluateSchedule, henabled, if_pos rfl])
  | true =>
    cases hparsed : parseCron schedule.cron with
    | error message => exact Or.inr (by rw [evaluateSchedule, henabled, if_neg (by decide), hparsed])
    | ok expr =>
      cases hanchor : schedule.anchor with
      | none => exact Or.inr (by rw [evaluateSchedule, henabled, if_neg (by decide), hparsed, hanchor])
      | some anchor => exact Or.inl ⟨expr, anchor, henabled, hparsed, hanchor⟩

theorem evaluateSchedule_fired {run : Option ScheduledRun} (h : evaluateSchedule input schedule = .fired lastTick run) :
    ∃ expr anchor, schedule.Live expr anchor ∧ (input.dueTicks expr anchor).getLast? = some lastTick ∧
      isWindowOpen input.openWindows schedule.firingClass input.now = true ∧
      (alreadyRecorded input.history schedule.id lastTick = true ∧ run = none ∨
        alreadyRecorded input.history schedule.id lastTick = false ∧
          run = some (newRun input schedule (input.dueTicks expr anchor) lastTick)) := by
  rcases live_or_unchanged input schedule with ⟨expr, anchor, hlive⟩ | hunchanged
  · rw [evaluateSchedule_live hlive] at h
    cases hlast : (input.dueTicks expr anchor).getLast? with
    | none =>
      rw [hlast] at h
      cases h
    | some tick =>
      rw [hlast] at h
      dsimp only at h
      split_ifs at h with hopen hrecorded
      · cases h
        exact ⟨expr, anchor, hlive, hlast, Bool.eq_true_of_not_eq_false hopen, Or.inl ⟨hrecorded, rfl⟩⟩
      · cases h
        exact ⟨expr, anchor, hlive, hlast, Bool.eq_true_of_not_eq_false hopen,
          Or.inr ⟨Bool.eq_false_of_not_eq_true hrecorded, rfl⟩⟩
  · rw [hunchanged] at h
    cases h

@[simp] theorem Verdict.schedule_id (verdict : Verdict) (schedule : Schedule) :
    (verdict.schedule schedule).id = schedule.id := by
  cases verdict <;> rfl

theorem evaluateSchedule_run_scheduleId {run : ScheduledRun} (h : (evaluateSchedule input schedule).run = some run) :
    run.scheduleId = schedule.id := by
  cases hverdict : evaluateSchedule input schedule with
  | unchanged => simp [hverdict, Verdict.run] at h
  | deferred held => simp [hverdict, Verdict.run] at h
  | fired lastTick created =>
    rw [hverdict, Verdict.run] at h
    obtain ⟨expr, anchor, -, -, -, ⟨-, rfl⟩ | ⟨-, rfl⟩⟩ := evaluateSchedule_fired hverdict
    · cases h
    · cases h
      rfl

end Verdicts

section Outcome

variable {input : TickInput} {x : Schedule}

theorem entries_evaluateTick (input : TickInput) (id : JsString) : entries (evaluateTick input).schedules id =
    (entries input.schedules id).map fun schedule => (evaluateSchedule input schedule).schedule schedule :=
  entries_map (fun schedule => Verdict.schedule_id _ schedule) id

theorem runsOf_created (input : TickInput) (id : JsString) : (runsOf (evaluateTick input).created id).Perm
    ((entries input.schedules id).filterMap fun schedule => (evaluateSchedule input schedule).run) := by
  have hfilter : runsOf (input.schedules.filterMap fun schedule => (evaluateSchedule input schedule).run) id =
      (entries input.schedules id).filterMap fun schedule => (evaluateSchedule input schedule).run := by
    rw [runsOf, entries, List.filter_filterMap, List.filterMap_filter]
    congr 1
    funext schedule
    cases hrun : (evaluateSchedule input schedule).run with
    | none => simp
    | some run =>
      rw [← evaluateSchedule_run_scheduleId hrun]
      by_cases hid : run.scheduleId = id <;> simp [hid]
  rw [← hfilter]
  exact (sortByKey_perm _ _).filter _

theorem runsOf_evaluateTick_nil {id : JsString} (h : entries input.schedules id = []) :
    runsOf (evaluateTick input).history id = runsOf input.history id := by
  have hperm := runsOf_created input id
  rw [h, List.filterMap_nil, List.perm_nil] at hperm
  change runsOf (input.history ++ (evaluateTick input).created) id = _
  rw [runsOf_append, hperm, List.append_nil]

theorem runsOf_evaluateTick (h : entries input.schedules x.id = [x]) : runsOf (evaluateTick input).history x.id =
    runsOf input.history x.id ++ (evaluateSchedule input x).run.toList := by
  have hperm := runsOf_created input x.id
  rw [h, List.filterMap_cons, List.filterMap_nil] at hperm
  change runsOf (input.history ++ (evaluateTick input).created) x.id = _
  rw [runsOf_append]
  congr 1
  cases hrun : (evaluateSchedule input x).run with
  | none =>
    rw [hrun] at hperm
    exact List.perm_nil.mp hperm
  | some run =>
    rw [hrun] at hperm
    exact List.perm_singleton.mp hperm

theorem entries_evaluateTick_single (h : entries input.schedules x.id = [x]) :
    entries (evaluateTick input).schedules x.id = [(evaluateSchedule input x).schedule x] := by
  rw [entries_evaluateTick, h, List.map_singleton]

theorem mem_deferred {held : DeferredSchedule} (h : held ∈ (evaluateTick input).deferred) :
    ∃ schedule ∈ input.schedules, held.scheduleId = schedule.id ∧
      evaluateSchedule input schedule = .deferred held := by
  obtain ⟨schedule, hschedule, hheld⟩ := List.mem_filterMap.mp h
  refine ⟨schedule, hschedule, ?_⟩
  cases hverdict : evaluateSchedule input schedule with
  | unchanged => simp [hverdict, Verdict.held] at hheld
  | fired lastTick run => simp [hverdict, Verdict.held] at hheld
  | deferred found =>
    rw [hverdict, Verdict.held, Option.some_inj] at hheld
    subst hheld
    refine ⟨?_, rfl⟩
    rcases live_or_unchanged input schedule with ⟨expr, anchor, hlive⟩ | hunchanged
    · rw [evaluateSchedule_live hlive] at hverdict
      split at hverdict
      · cases hverdict
      · split_ifs at hverdict
        cases hverdict
        rfl
    · rw [hunchanged] at hverdict
      cases hverdict

end Outcome

end CrashLab.Cron
