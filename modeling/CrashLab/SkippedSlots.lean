import CrashLab.MisfirePolicies

namespace CrashLab.Cron

open Histories JsStrings LeastWalks
open CampaignQuotas (SchedulingWindows isWindowOpen)

def EveryMinute (instants : List ℕ) : Prop := instants.IsChain fun a b => a ≤ b ∧ b / minuteMs ≤ a / minuteMs + 1

/-- Where a schedule and its runs stand when the route has been called in every minute up to this one. -/
structure Kept (x : Schedule) (minute : ℕ) (state : SchedulerState) (lastRunAt : Option ℕ) : Prop where
  entry : entries state.schedules x.id = [{ x with lastRunAt := lastRunAt }]
  recorded : RecordedUpTo minute state.history
  quiet : ∀ {expr anchor}, Schedule.Live { x with lastRunAt := lastRunAt } expr anchor → Quiet expr anchor minute
  skipped : x.misfire = .skip → runsOf state.history x.id = []
  fired : x.misfire = .runImmediately → lastRunAt = none ∨ runsOf state.history x.id ≠ []

section Evaluations

variable {input : TickInput} {x : Schedule} {minute : ℕ} {expr : CronExpression} {anchor : ℕ}

theorem evaluateSchedule_open (live : x.Live expr anchor) (hticks : input.maxCatchUpTicks = none)
    (hopen : isWindowOpen input.openWindows x.firingClass input.now = true) (hquiet : Quiet expr anchor minute)
    (hnow : input.now / minuteMs ≤ minute + 1) :
    evaluateSchedule input x = .unchanged ∧ Quiet expr anchor (input.now / minuteMs) ∨
      ∃ t run, evaluateSchedule input x = .fired t run ∧ Quiet expr t (input.now / minuteMs) ∧
        (run = none → runsOf input.history x.id ≠ []) := by
  obtain ⟨fuel, hfuel⟩ : ∃ fuel, input.maxTicks = fuel + 2 :=
    ⟨99998, by rw [TickInput.maxTicks, hticks]; norm_num [defaultMaxCatchUpTicks]⟩
  have hdue : input.dueTicks expr anchor = walk (nextRun expr) (floorToMinute input.now) (fuel + 2) anchor := by
    rw [TickInput.dueTicks, hfuel]
  rw [← floorToMinute_div] at hnow ⊢
  rw [evaluateSchedule_live live]
  rcases hquiet.step hnow fuel with ⟨hnil, hrest⟩ | ⟨t, -, -, hwalk, hrest⟩
  · rw [hdue, hnil]
    exact Or.inl ⟨rfl, hrest⟩
  · refine Or.inr ⟨t, ?_⟩
    rw [hdue, hwalk, List.getLast?_singleton]
    dsimp only
    rw [hopen, if_neg (by decide)]
    split
    next hfound =>
      refine ⟨none, rfl, hrest, fun _ hnil => ?_⟩
      obtain ⟨run, hrun, -⟩ := alreadyRecorded_iff.mp hfound
      rw [hnil] at hrun
      cases hrun
    next => exact ⟨some _, rfl, hrest, fun h => by cases h⟩

end Evaluations

section Steps

variable {state : SchedulerState} {request : TickRequest} {x : Schedule} {minute : ℕ} {lastRunAt : Option ℕ}

theorem Kept.tick_skip (h : Kept x minute state lastRunAt) (hid : x.id ≠ systemId)
    (hle : minute ≤ request.now / minuteMs) (hnext : request.now / minuteMs ≤ minute + 1) (hskip : x.misfire = .skip)
    (hfresh : alreadyProcessed state.history request.now = false) :
    ∃ lastRunAt', Kept x (request.now / minuteMs) (state.tick request) lastRunAt' := by
  obtain ⟨hentry, hruns⟩ := tick_single (x := { x with lastRunAt := lastRunAt }) h.entry hid hfresh
  have hstays : Schedule.misfire { x with lastRunAt := lastRunAt } = .skip := hskip
  obtain ⟨lastRunAt', hrecovered, hquiet⟩ := recoverSchedule_quiet hstays h.quiet hnext
  have hverdict : evaluateSchedule (state.recovered request) { x with lastRunAt := lastRunAt' } = .unchanged := by
    rcases live_or_unchanged (state.recovered request) { x with lastRunAt := lastRunAt' } with ⟨expr, anchor, live⟩ | h
    · exact evaluateSchedule_quiet live (hquiet live)
    · exact h
  rw [hrecovered] at hentry hruns
  dsimp only at hentry hruns
  rw [hverdict] at hentry hruns
  refine ⟨lastRunAt', hentry, h.recorded.tick hle, hquiet, ?_, ?_⟩
  · intro _
    rw [hruns, h.skipped hskip]
    rfl
  · intro hrun
    rw [hskip] at hrun
    cases hrun

theorem Kept.tick_run (h : Kept x minute state lastRunAt) (hid : x.id ≠ systemId)
    (hle : minute ≤ request.now / minuteMs) (hnext : request.now / minuteMs ≤ minute + 1)
    (hopen : isWindowOpen request.windows x.firingClass request.now = true) (hrun : x.misfire = .runImmediately)
    (hfresh : alreadyProcessed state.history request.now = false) :
    ∃ lastRunAt', Kept x (request.now / minuteMs) (state.tick request) lastRunAt' := by
  obtain ⟨hentry, hruns⟩ := tick_single (x := { x with lastRunAt := lastRunAt }) h.entry hid hfresh
  have hsame : (recoverSchedule request.now { x with lastRunAt := lastRunAt }).1 = { x with lastRunAt := lastRunAt } :=
    recoverSchedule_of_run hrun
  rw [hsame] at hentry hruns
  dsimp only at hentry hruns
  have hnoskip : x.misfire = .skip → runsOf (state.tick request).history x.id = [] := by
    intro hskip
    rw [hrun] at hskip
    cases hskip
  by_cases hlive : ∃ expr anchor, Schedule.Live { x with lastRunAt := lastRunAt } expr anchor
  · obtain ⟨expr, anchor, live⟩ := hlive
    have hevaluated := @evaluateSchedule_open (state.recovered request) _ _ _ _ live rfl hopen (h.quiet live) hnext
    rcases hevaluated with ⟨hverdict, hquiet⟩ | ⟨t, run, hverdict, hquiet, hnone⟩
    · rw [hverdict] at hentry hruns
      refine ⟨lastRunAt, hentry, h.recorded.tick hle, ?_, hnoskip, ?_⟩
      · intro expr' anchor' live'
        obtain ⟨rfl, rfl⟩ := live.unique live'
        exact hquiet
      · intro _
        rw [hruns]
        exact (h.fired hrun).imp_right fun hne => by simpa [Verdict.run] using hne
    · rw [hverdict] at hentry hruns
      refine ⟨some t, hentry, h.recorded.tick hle, ?_, hnoskip, fun _ => Or.inr ?_⟩
      · intro expr' anchor' live'
        have hfired : Schedule.Live { x with lastRunAt := some t } expr t := ⟨live.enabled, live.parsed, rfl⟩
        obtain ⟨rfl, rfl⟩ := hfired.unique live'
        exact hquiet
      · rw [hruns]
        cases run with
        | none => exact fun hnil => hnone rfl (List.append_eq_nil_iff.mp hnil).1
        | some run => simp [Verdict.run]
  · have hverdict : evaluateSchedule (state.recovered request) { x with lastRunAt := lastRunAt } = .unchanged :=
      (live_or_unchanged (state.recovered request) { x with lastRunAt := lastRunAt }).resolve_left hlive
    rw [hverdict] at hentry hruns
    refine ⟨lastRunAt, hentry, h.recorded.tick hle, fun live => absurd ⟨_, _, live⟩ hlive, hnoskip, ?_⟩
    intro _
    rw [hruns]
    exact (h.fired hrun).imp_right fun hne => by simpa [Verdict.run] using hne

theorem Kept.tick (h : Kept x minute state lastRunAt) (hid : x.id ≠ systemId)
    (hle : minute ≤ request.now / minuteMs) (hnext : request.now / minuteMs ≤ minute + 1)
    (hopen : isWindowOpen request.windows x.firingClass request.now = true) :
    ∃ lastRunAt', Kept x (request.now / minuteMs) (state.tick request) lastRunAt' := by
  cases hprocessed : alreadyProcessed state.history request.now with
  | true =>
    obtain rfl : minute = request.now / minuteMs := le_antisymm hle (h.recorded.fresh hprocessed)
    rw [SchedulerState.tick, hprocessed]
    exact ⟨lastRunAt, h⟩
  | false =>
    cases hmisfire : x.misfire with
    | skip => exact h.tick_skip hid hle hnext hmisfire hprocessed
    | runImmediately => exact h.tick_run hid hle hnext hopen hmisfire hprocessed

end Steps

section Runs

variable {state : SchedulerState} {x : Schedule} {created : ℕ} {requests : List TickRequest}

theorem Kept.run {last : ℕ} {lastRunAt : Option ℕ} (h : Kept x (last / minuteMs) state lastRunAt)
    (hid : x.id ≠ systemId) (hevery : EveryMinute (last :: requests.map (·.now)))
    (hopen : ∀ request ∈ requests, isWindowOpen request.windows x.firingClass request.now = true) :
    ∃ minute lastRunAt', Kept x minute (run SchedulerState.tick state requests) lastRunAt' ∧
      ∀ request ∈ requests, request.now / minuteMs ≤ minute := by
  have hminutes : ∀ {last : ℕ} {state : SchedulerState} {lastRunAt : Option ℕ} {requests : List TickRequest},
      Kept x (last / minuteMs) state lastRunAt → EveryMinute (last :: requests.map (·.now)) →
      (∀ request ∈ requests, isWindowOpen request.windows x.firingClass request.now = true) →
      ∃ minute lastRunAt', Kept x minute (Histories.run SchedulerState.tick state requests) lastRunAt' ∧
        last / minuteMs ≤ minute ∧ ∀ request ∈ requests, request.now / minuteMs ≤ minute := by
    intro last state lastRunAt requests h hevery hopen
    induction requests generalizing last state lastRunAt with
    | nil => exact ⟨_, _, h, le_rfl, by simp⟩
    | cons request requests ih =>
      rw [EveryMinute, List.map_cons, List.isChain_cons_cons] at hevery
      rw [List.forall_mem_cons] at hopen
      have hle : last / minuteMs ≤ request.now / minuteMs := Nat.div_le_div_right hevery.1.1
      obtain ⟨lastRunAt', hstep⟩ := h.tick hid hle hevery.1.2 hopen.1
      obtain ⟨minute, final, hfinal, hfirst, hrest⟩ := ih hstep hevery.2 hopen.2
      refine ⟨minute, final, hfinal, hle.trans hfirst, ?_⟩
      rw [List.forall_mem_cons]
      exact ⟨hfirst, hrest⟩
  obtain ⟨minute, final, hfinal, -, hrest⟩ := hminutes h hevery hopen
  exact ⟨minute, final, hfinal, hrest⟩

theorem kept_of_created (only : entries state.schedules x.id = [x]) (hcreated : x.createdAt = some created)
    (unfired : x.lastRunAt = none) (norun : runsOf state.history x.id = [])
    (hrecorded : RecordedUpTo (created / minuteMs) state.history) : Kept x (created / minuteMs) state none := by
  have hself : x = { x with lastRunAt := none } := by rw [← unfired]
  refine ⟨by rw [only, ← hself], hrecorded, ?_, fun _ => norun, fun _ => Or.inl rfl⟩
  intro expr anchor live
  have hanchor := live.anchored
  rw [Schedule.anchor, Option.none_or, hcreated, Option.some_inj] at hanchor
  rw [← hanchor]
  exact quiet_self expr created

theorem idle_run (only : entries state.schedules x.id = [x]) (hid : x.id ≠ systemId)
    (norun : runsOf state.history x.id = []) (hrun : x.misfire = .runImmediately)
    (hidle : ∀ request ∈ requests, ∀ {expr anchor}, x.Live expr anchor →
      ∀ first, nextRun expr anchor = some first → request.now < first) :
    runsOf (run SchedulerState.tick state requests).history x.id = [] := by
  have hkeeps : ∀ (s : SchedulerState) (request : TickRequest),
      entries s.schedules x.id = [x] ∧ runsOf s.history x.id = [] →
      (∀ {expr anchor}, x.Live expr anchor → ∀ first, nextRun expr anchor = some first → request.now < first) →
      entries (s.tick request).schedules x.id = [x] ∧ runsOf (s.tick request).history x.id = [] := by
    intro s request hs hnone
    cases hprocessed : alreadyProcessed s.history request.now with
    | true =>
      rw [SchedulerState.tick, hprocessed]
      exact hs
    | false =>
      obtain ⟨hentry, hruns⟩ := tick_single hs.1 hid hprocessed
      rw [recoverSchedule_of_run hrun] at hentry hruns
      have hverdict : evaluateSchedule (s.recovered request) x = .unchanged := by
        rcases live_or_unchanged (s.recovered request) x with ⟨expr, anchor, live⟩ | h
        · have hdue : (s.recovered request).dueTicks expr anchor = [] := by
            apply walk_eq_nil_of_forall
            intro t ht
            exact (floorToMinute_le _).trans_lt (hnone live t ht)
          rw [evaluateSchedule_live live, hdue]
          rfl
        · exact h
      rw [hverdict] at hentry hruns
      exact ⟨hentry, by rw [hruns, hs.2]; rfl⟩
  exact (EachStep.invariant hkeeps ⟨only, norun⟩ (EachStep.of_forall hidle state)).2

end Runs

section Policies

def Schedule.withMisfire (schedule : Schedule) (misfire : MisfirePolicy) : Schedule :=
  { schedule with
    policy := some {
      misfire := misfire
      catchUpCap := (schedule.policy.map (·.catchUpCap)).getD defaultCatchUpCap
      overlap := (schedule.policy.map (·.overlap)).getD defaultOverlapPolicy } }

def withMisfire (schedules : List Schedule) (id : JsString) (misfire : MisfirePolicy) : List Schedule :=
  schedules.map fun schedule => if schedule.id = id then schedule.withMisfire misfire else schedule

theorem entries_withMisfire {schedules : List Schedule} {x : Schedule} (only : entries schedules x.id = [x])
    (misfire : MisfirePolicy) : entries (withMisfire schedules x.id misfire) x.id = [x.withMisfire misfire] := by
  have hid : ∀ schedule : Schedule,
      (if schedule.id = x.id then schedule.withMisfire misfire else schedule).id = schedule.id := by
    intro schedule
    split_ifs <;> rfl
  rw [withMisfire, entries_map hid, only, List.map_singleton, if_pos rfl]

def firedSlots (misfire : MisfirePolicy) (state : SchedulerState) (requests : List TickRequest) (id : JsString) :
    List ℕ :=
  let start : SchedulerState := ⟨withMisfire state.schedules id misfire, state.history⟩
  (runsOf (run SchedulerState.tick start requests).history id).map (·.scheduledFor)

variable {state : SchedulerState} {x : Schedule} {created : ℕ} {requests : List TickRequest}

theorem skip_fires_nothing (only : entries state.schedules x.id = [x]) (hid : x.id ≠ systemId)
    (hcreated : x.createdAt = some created) (unfired : x.lastRunAt = none) (norun : runsOf state.history x.id = [])
    (hrecorded : RecordedUpTo (created / minuteMs) state.history)
    (hevery : EveryMinute (created :: requests.map (·.now)))
    (hopen : ∀ request ∈ requests, isWindowOpen request.windows x.firingClass request.now = true) :
    firedSlots .skip state requests x.id = [] := by
  have hstart := @kept_of_created ⟨withMisfire state.schedules x.id .skip, state.history⟩ (x.withMisfire .skip) created
    (entries_withMisfire only .skip) hcreated unfired norun hrecorded
  obtain ⟨minute, lastRunAt, hkept, -⟩ := hstart.run hid hevery hopen
  rw [firedSlots, List.map_eq_nil_iff]
  exact hkept.skipped rfl

theorem skip_fires_same_iff (state : SchedulerState) (x : Schedule) (created : ℕ) (requests : List TickRequest)
    (only : entries state.schedules x.id = [x]) (hid : x.id ≠ systemId) (hcreated : x.createdAt = some created)
    (unfired : x.lastRunAt = none) (norun : runsOf state.history x.id = [])
    (hrecorded : RecordedUpTo (created / minuteMs) state.history)
    (hevery : EveryMinute (created :: requests.map (·.now)))
    (hopen : ∀ request ∈ requests, isWindowOpen request.windows x.firingClass request.now = true) :
    firedSlots .skip state requests x.id = firedSlots .runImmediately state requests x.id ↔
      x.enabled = false ∨ ∀ expr first, parseCron x.cron = .ok expr → nextRun expr created = some first →
        ∀ request ∈ requests, request.now < first := by
  have hentry := entries_withMisfire only .runImmediately
  rw [skip_fires_nothing only hid hcreated unfired norun hrecorded hevery hopen]
  constructor
  · intro hsame
    by_contra hdue
    simp only [not_or, not_forall, Bool.not_eq_false, not_lt] at hdue
    obtain ⟨henabled, expr, first, hparsed, hfirst, request, hrequest, hle⟩ := hdue
    have hstart := @kept_of_created ⟨withMisfire state.schedules x.id .runImmediately, state.history⟩
      (x.withMisfire .runImmediately) created hentry hcreated unfired norun hrecorded
    obtain ⟨minute, lastRunAt, hkept, hminutes⟩ := hstart.run hid hevery hopen
    have hnone : lastRunAt = none := by
      rcases hkept.fired rfl with h | h
      · exact h
      · exact absurd (List.map_eq_nil_iff.mp hsame.symm) h
    have live : Schedule.Live { x.withMisfire .runImmediately with lastRunAt := lastRunAt } expr created := by
      refine ⟨henabled, hparsed, ?_⟩
      rw [hnone, Schedule.anchor, Option.none_or]
      exact hcreated
    have hpast := (hkept.quiet live first hfirst).trans hle
    have hlater := (lt_startAfter request.now).trans_le (Nat.mul_le_mul_right minuteMs
      (Nat.succ_le_succ (hminutes request hrequest)))
    exact absurd hpast (not_le.mpr hlater)
  · intro hnever
    rw [eq_comm, firedSlots, List.map_eq_nil_iff]
    refine @idle_run ⟨withMisfire state.schedules x.id .runImmediately, state.history⟩ (x.withMisfire .runImmediately)
      requests hentry hid norun rfl ?_
    intro request hrequest expr anchor live first hfirst
    rcases hnever with hdisabled | hnever
    · have henabled : x.enabled = true := live.enabled
      rw [hdisabled] at henabled
      cases henabled
    · have hanchor : (x.lastRunAt.or x.createdAt) = some anchor := live.anchored
      rw [unfired, Option.none_or, hcreated, Option.some_inj] at hanchor
      subst hanchor
      exact hnever expr first live.parsed hfirst request hrequest

def minutely : Schedule where
  id := ofString "sched-minutely"
  name := ofString "Every minute"
  cron := ofString "* * * * *"
  enabled := true
  createdAt := some 1772323200000
  updatedAt := some 1772323200000
  lastRunAt := none

def halfMinutes : List TickRequest :=
  [{ now := 1772323230000, clock := 1772323230000 }, { now := 1772323290000, clock := 1772323290000 }]

theorem minutely_recorded : RecordedUpTo (1772323200000 / minuteMs) (SchedulerState.mk [minutely] []).history := by
  intro run hrun
  cases hrun

theorem minutely_every : EveryMinute (1772323200000 :: halfMinutes.map (·.now)) := by
  simp [EveryMinute, halfMinutes, minuteMs]

theorem minutely_fires_same_iff :
    firedSlots .skip ⟨[minutely], []⟩ halfMinutes minutely.id =
        firedSlots .runImmediately ⟨[minutely], []⟩ halfMinutes minutely.id ↔
      minutely.enabled = false ∨ ∀ expr first, parseCron minutely.cron = .ok expr →
        nextRun expr 1772323200000 = some first → ∀ request ∈ halfMinutes, request.now < first :=
  skip_fires_same_iff ⟨[minutely], []⟩ minutely 1772323200000 halfMinutes (by decide +kernel) (by decide +kernel) rfl
    rfl rfl minutely_recorded minutely_every (by decide +kernel)

theorem skip_fires_same_fails : ¬ ∀ (state : SchedulerState) (x : Schedule) (created : ℕ)
    (requests : List TickRequest), entries state.schedules x.id = [x] → x.id ≠ systemId →
    x.createdAt = some created → x.lastRunAt = none → runsOf state.history x.id = [] →
    RecordedUpTo (created / minuteMs) state.history → EveryMinute (created :: requests.map (·.now)) →
    (∀ request ∈ requests, isWindowOpen request.windows x.firingClass request.now = true) →
    firedSlots .skip state requests x.id = firedSlots .runImmediately state requests x.id := by
  -- not all runs with the route called in every minute fire the same slots under both policies
  intro h
  have hsame := h ⟨[minutely], []⟩ minutely 1772323200000 halfMinutes (by decide +kernel) (by decide +kernel) rfl rfl rfl
    minutely_recorded minutely_every (by decide +kernel)
  have hskip : firedSlots .skip ⟨[minutely], []⟩ halfMinutes minutely.id = [] := by decide +kernel
  have hrun : firedSlots .runImmediately ⟨[minutely], []⟩ halfMinutes minutely.id = [1772323260000] := by
    decide +kernel
  rw [hskip, hrun] at hsame
  cases hsame

end Policies

end CrashLab.Cron
