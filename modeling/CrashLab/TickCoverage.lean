import CrashLab.Histories
import CrashLab.TickEvaluator

namespace CrashLab.Cron

open Histories LeastWalks JsStrings
open CampaignQuotas (SchedulingWindows isWindowOpen)

structure SchedulerState where
  schedules : List Schedule
  history : List ScheduledRun
deriving DecidableEq

/-- One call of `evaluateTick` on what the last one left. -/
structure Evaluation where
  now : ℕ
  windows : Option SchedulingWindows := none
  maxCatchUpTicks : Option ℕ := none
deriving DecidableEq

namespace SchedulerState

def input (state : SchedulerState) (evaluation : Evaluation) : TickInput where
  schedules := state.schedules
  history := state.history
  now := evaluation.now
  maxCatchUpTicks := evaluation.maxCatchUpTicks
  windows := evaluation.windows

def evaluate (state : SchedulerState) (evaluation : Evaluation) : SchedulerState where
  schedules := (evaluateTick (state.input evaluation)).schedules
  history := (evaluateTick (state.input evaluation)).history

end SchedulerState

section Coverage

/-- A run counts the last `tickCount` instants of its expression up to the one it is for. -/
def Covers (run : ScheduledRun) (t : ℕ) : Prop :=
  ∃ expr, parseCron run.cron = .ok expr ∧ Matches expr t ∧ t ≤ run.scheduledFor ∧
    (slots expr t run.scheduledFor).card < run.tickCount

variable {input : TickInput} {x : Schedule} {expr : CronExpression} {anchor lastTick : ℕ}

theorem dueTicks_last (h : (input.dueTicks expr anchor).getLast? = some lastTick) :
    anchor < lastTick ∧ lastTick ≤ floorToMinute input.now ∧ Matches expr lastTick :=
  getLast_walk (nextRun_findsLeast expr) h

theorem length_dueTicks (h : (input.dueTicks expr anchor).getLast? = some lastTick) :
    (input.dueTicks expr anchor).length = (slots expr anchor lastTick).card :=
  length_walk (nextRun_findsLeast expr) h

theorem covers_newRun (hlive : x.Live expr anchor) (hlast : (input.dueTicks expr anchor).getLast? = some lastTick)
    {t : ℕ} : Covers (newRun input x (input.dueTicks expr anchor) lastTick) t ↔ t ∈ slots expr anchor lastTick := by
  obtain ⟨hlt, -, -⟩ := dueTicks_last hlast
  have hcount := length_dueTicks hlast
  constructor
  · rintro ⟨expr', hparsed, hmatch, hle, hcard⟩
    obtain rfl := Except.ok.inj (hlive.parsed.symm.trans hparsed)
    rw [mem_slots]
    refine ⟨?_, hle, hmatch⟩
    by_contra hnot
    have hsplit : (slots expr t lastTick).card = _ := card_slots (not_lt.mp hnot) hlt.le
    change (slots expr t lastTick).card < (input.dueTicks expr anchor).length at hcard
    omega
  · intro ht
    rw [mem_slots] at ht
    obtain ⟨hat, hle, hmatch⟩ := ht
    refine ⟨expr, hlive.parsed, hmatch, hle, ?_⟩
    have hsplit : (slots expr anchor lastTick).card = _ := card_slots hat.le hle
    have hself : 0 < (slots expr anchor t).card := Finset.card_pos.mpr ⟨t, mem_slots.mpr ⟨hat, le_rfl, hmatch⟩⟩
    change (slots expr t lastTick).card < (input.dueTicks expr anchor).length
    omega

theorem Covers.le {run : ScheduledRun} {t : ℕ} (h : Covers run t) : t ≤ run.scheduledFor := by
  obtain ⟨-, -, -, hle, -⟩ := h
  exact hle

end Coverage

section Steps

variable {state : SchedulerState} {x : Schedule}

inductive Advance (input : TickInput) (x : Schedule) : Schedule → List ScheduledRun → Prop where
  | stay : Advance input x x []
  | recorded {expr : CronExpression} {anchor lastTick : ℕ} (live : x.Live expr anchor)
      (last : (input.dueTicks expr anchor).getLast? = some lastTick)
      (opened : isWindowOpen input.openWindows x.firingClass input.now = true)
      (found : alreadyRecorded input.history x.id lastTick = true) :
      Advance input x { x with lastRunAt := some lastTick } []
  | created {expr : CronExpression} {anchor lastTick : ℕ} (live : x.Live expr anchor)
      (last : (input.dueTicks expr anchor).getLast? = some lastTick)
      (opened : isWindowOpen input.openWindows x.firingClass input.now = true)
      (fresh : alreadyRecorded input.history x.id lastTick = false) :
      Advance input x { x with lastRunAt := some lastTick }
        [newRun input x (input.dueTicks expr anchor) lastTick]

theorem advance_evaluateSchedule (input : TickInput) (x : Schedule) :
    Advance input x ((evaluateSchedule input x).schedule x) (evaluateSchedule input x).run.toList := by
  cases hverdict : evaluateSchedule input x with
  | unchanged => exact .stay
  | deferred held => exact .stay
  | fired lastTick run =>
    obtain ⟨expr, anchor, hlive, hlast, hopen, ⟨hfound, rfl⟩ | ⟨hfresh, rfl⟩⟩ := evaluateSchedule_fired hverdict
    · exact .recorded hlive hlast hopen hfound
    · exact .created hlive hlast hopen hfresh

theorem evaluateTick_advance {input : TickInput} (h : entries input.schedules x.id = [x]) :
    ∃ x' more, Advance input x x' more ∧ entries (evaluateTick input).schedules x.id = [x'] ∧
      runsOf (evaluateTick input).history x.id = runsOf input.history x.id ++ more :=
  ⟨_, _, advance_evaluateSchedule input x, entries_evaluateTick_single h, runsOf_evaluateTick h⟩

theorem Advance.eq {input : TickInput} {x' : Schedule} {more : List ScheduledRun} (h : Advance input x x' more) :
    x' = { x with lastRunAt := x'.lastRunAt } := by
  cases h <;> rfl

theorem alreadyRecorded_iff {history : List ScheduledRun} {id : JsString} {lastTick : ℕ} :
    alreadyRecorded history id lastTick = true ↔ ∃ run ∈ runsOf history id, run.scheduledFor = lastTick := by
  simp [alreadyRecorded, mem_runsOf, and_assoc]

end Steps

def hourly : Schedule where
  id := ofString "sched-hourly-smoke"
  name := ofString "Hourly smoke campaign"
  cron := ofString "0 * * * *"
  enabled := true
  createdAt := some 1772323200000
  updatedAt := some 1772323200000
  lastRunAt := none

structure Accounted (x : Schedule) (runs : List ScheduledRun) : Prop where
  increasing : runs.Pairwise (·.scheduledFor < ·.scheduledFor)
  reached : ∀ run ∈ runs, ∃ last, x.lastRunAt = some last ∧ run.scheduledFor ≤ last
  counted : ∀ {expr created anchor}, parseCron x.cron = .ok expr → x.createdAt = some created →
    x.anchor = some anchor → created ≤ anchor ∧ (runs.map (·.tickCount)).sum = (slots expr created anchor).card
  covered : ∀ {expr created anchor t}, parseCron x.cron = .ok expr → x.createdAt = some created →
    x.anchor = some anchor → t ∈ slots expr created anchor → ∃! run, run ∈ runs ∧ Covers run t

section Steps

variable {input : TickInput} {x x' : Schedule} {runs more : List ScheduledRun}

theorem accounted_of_new (h : x.lastRunAt = none) : Accounted x [] := by
  have hanchor : x.anchor = x.createdAt := by rw [Schedule.anchor, h, Option.none_or]
  refine ⟨List.Pairwise.nil, by simp, ?_, ?_⟩
  · intro expr created anchor hparsed hcreated ha
    obtain rfl := Option.some.inj (hcreated.symm.trans (hanchor.symm.trans ha))
    exact ⟨le_rfl, by simp [slots]⟩
  · intro expr created anchor t hparsed hcreated ha ht
    obtain rfl := Option.some.inj (hcreated.symm.trans (hanchor.symm.trans ha))
    simp [slots] at ht

theorem Accounted.not_recorded {expr : CronExpression} {anchor lastTick : ℕ} (h : Accounted x runs)
    (live : x.Live expr anchor) (hlt : anchor < lastTick) : ∀ run ∈ runs, run.scheduledFor ≠ lastTick := by
  intro run hrun heq
  obtain ⟨last, hlast, hle⟩ := h.reached run hrun
  have hanchor := live.anchored
  rw [Schedule.anchor, hlast, Option.some_or, Option.some_inj] at hanchor
  omega

theorem Accounted.le_anchor {expr : CronExpression} {anchor : ℕ} (h : Accounted x runs) (live : x.Live expr anchor) :
    ∀ run ∈ runs, run.scheduledFor ≤ anchor := by
  intro run hrun
  obtain ⟨last, hlast, hle⟩ := h.reached run hrun
  have hanchor := live.anchored
  rw [Schedule.anchor, hlast, Option.some_or, Option.some_inj] at hanchor
  rwa [← hanchor]

theorem Accounted.advance (h : Accounted x (runsOf input.history x.id)) (step : Advance input x x' more) :
    Accounted x' (runsOf input.history x.id ++ more) := by
  cases step with
  | stay => rwa [List.append_nil]
  | recorded live last opened found =>
    obtain ⟨run, hrun, heq⟩ := alreadyRecorded_iff.mp found
    exact absurd heq (h.not_recorded live (dueTicks_last last).1 run hrun)
  | @created expr anchor lastTick live last opened fresh =>
    obtain ⟨hlt, -, -⟩ := dueTicks_last last
    have hbefore := h.le_anchor live
    refine ⟨?_, ?_, ?_, ?_⟩
    · rw [List.pairwise_append]
      refine ⟨h.increasing, List.pairwise_singleton _ _, ?_⟩
      intro run hrun new hnew
      rw [List.mem_singleton.mp hnew]
      exact (hbefore run hrun).trans_lt hlt
    · intro run hrun
      refine ⟨lastTick, rfl, ?_⟩
      rcases List.mem_append.mp hrun with hrun | hrun
      · exact (hbefore run hrun).trans hlt.le
      · rw [List.mem_singleton.mp hrun]
        exact le_rfl
    · intro expr' created anchor' hparsed hcreated hanchor
      obtain rfl := Except.ok.inj (live.parsed.symm.trans hparsed)
      obtain rfl : lastTick = anchor' := Option.some.inj hanchor
      obtain ⟨hle, hsum⟩ := h.counted live.parsed hcreated live.anchored
      refine ⟨hle.trans hlt.le, ?_⟩
      rw [List.map_append, List.sum_append, hsum, card_slots hle hlt.le, ← length_dueTicks last]
      simp [newRun]
    · intro expr' created anchor' t hparsed hcreated hanchor ht
      obtain rfl := Except.ok.inj (live.parsed.symm.trans hparsed)
      obtain rfl : lastTick = anchor' := Option.some.inj hanchor
      obtain ⟨hle, -⟩ := h.counted live.parsed hcreated live.anchored
      rw [slots_union hle hlt.le, Finset.mem_union] at ht
      have hnew : ∀ run, run ∈ runsOf input.history x.id ++ [newRun input x (input.dueTicks expr anchor) lastTick] →
          run ∈ runsOf input.history x.id ∨ run = newRun input x (input.dueTicks expr anchor) lastTick := by
        intro run hrun
        rwa [List.mem_append, List.mem_singleton] at hrun
      rcases ht with ht | ht
      · obtain ⟨run, ⟨hrun, hcovers⟩, hunique⟩ := h.covered live.parsed hcreated live.anchored ht
        refine ⟨run, ⟨List.mem_append_left _ hrun, hcovers⟩, ?_⟩
        rintro other ⟨hother, hcovers'⟩
        rcases hnew other hother with hother | rfl
        · exact hunique other ⟨hother, hcovers'⟩
        · have hpast := mem_slots.mp ((covers_newRun live last).mp hcovers')
          have := mem_slots.mp ht
          omega
      · refine ⟨_, ⟨List.mem_append_right _ (List.mem_singleton_self _), (covers_newRun live last).mpr ht⟩, ?_⟩
        rintro other ⟨hother, hcovers'⟩
        rcases hnew other hother with hother | rfl
        · have hpast := hcovers'.le.trans (hbefore other hother)
          have := mem_slots.mp ht
          omega
        · rfl

end Steps

section Runs

variable {state : SchedulerState} {x : Schedule}

def Standing (x : Schedule) (state : SchedulerState) : Prop :=
  ∃ lastRunAt, entries state.schedules x.id = [{ x with lastRunAt := lastRunAt }] ∧
    Accounted { x with lastRunAt := lastRunAt } (runsOf state.history x.id)

theorem Standing.evaluate (h : Standing x state) (evaluation : Evaluation) :
    Standing x (state.evaluate evaluation) := by
  obtain ⟨lastRunAt, hentries, haccounted⟩ := h
  have hinput : entries (state.input evaluation).schedules x.id = [{ x with lastRunAt := lastRunAt }] := hentries
  obtain ⟨x', more, hadvance, hentries', hruns⟩ := evaluateTick_advance (x := { x with lastRunAt := lastRunAt }) hinput
  refine ⟨x'.lastRunAt, ?_, ?_⟩
  · rw [hadvance.eq] at hentries'
    exact hentries'
  · have hstep := @Accounted.advance (state.input evaluation) _ _ _ haccounted hadvance
    rw [hadvance.eq] at hstep
    exact hruns ▸ hstep

theorem Standing.deferred (h : Standing x state) {evaluation : Evaluation}
    (hdeferred : ∃ held ∈ (evaluateTick (state.input evaluation)).deferred, held.scheduleId = x.id) :
    entries (state.evaluate evaluation).schedules x.id = entries state.schedules x.id ∧
      runsOf (state.evaluate evaluation).history x.id = runsOf state.history x.id := by
  obtain ⟨lastRunAt, hentries, -⟩ := h
  obtain ⟨held, hheld, hid⟩ := hdeferred
  obtain ⟨schedule, hschedule, hsame, hverdict⟩ := mem_deferred hheld
  have hmem : schedule ∈ entries state.schedules x.id := mem_entries.mpr ⟨hschedule, hsame.symm.trans hid⟩
  rw [hentries, List.mem_singleton] at hmem
  subst hmem
  have hinput : entries (state.input evaluation).schedules x.id = [{ x with lastRunAt := lastRunAt }] := hentries
  have hkept := entries_evaluateTick_single (x := { x with lastRunAt := lastRunAt }) hinput
  have hruns := runsOf_evaluateTick (x := { x with lastRunAt := lastRunAt }) hinput
  rw [hverdict] at hkept hruns
  refine ⟨hkept.trans hentries.symm, ?_⟩
  exact hruns.trans (List.append_nil _)

theorem cron_ticks_conserved (state : SchedulerState) (x : Schedule) (evaluations : List Evaluation)
    (only : entries state.schedules x.id = [x]) (unfired : x.lastRunAt = none)
    (norun : runsOf state.history x.id = []) :
    (∃ lastRunAt, entries (run SchedulerState.evaluate state evaluations).schedules x.id =
        [{ x with lastRunAt := lastRunAt }] ∧
      (lastRunAt = none → runsOf (run SchedulerState.evaluate state evaluations).history x.id = []) ∧
      ∀ expr created last, parseCron x.cron = .ok expr → x.createdAt = some created → lastRunAt = some last →
        (∀ t ∈ slots expr created last,
          ∃! run', run' ∈ runsOf (run SchedulerState.evaluate state evaluations).history x.id ∧ Covers run' t) ∧
        ((runsOf (run SchedulerState.evaluate state evaluations).history x.id).map (·.tickCount)).sum =
          (slots expr created last).card) ∧
    (runsOf (run SchedulerState.evaluate state evaluations).history x.id).Pairwise
      (·.scheduledFor < ·.scheduledFor) ∧
    EachStep SchedulerState.evaluate (fun s evaluation =>
      (∃ held ∈ (evaluateTick (s.input evaluation)).deferred, held.scheduleId = x.id) →
        entries (s.evaluate evaluation).schedules x.id = entries s.schedules x.id ∧
          runsOf (s.evaluate evaluation).history x.id = runsOf s.history x.id) state evaluations := by
  have hstart : Standing x state := by
    refine ⟨none, ?_, ?_⟩
    · rw [← unfired]
      exact only
    · rw [norun]
      exact accounted_of_new rfl
  have hkeeps : ∀ s evaluation, Standing x s → Standing x (s.evaluate evaluation) :=
    fun s evaluation h => h.evaluate evaluation
  obtain ⟨lastRunAt, hentries, haccounted⟩ := run_invariant hkeeps hstart evaluations
  refine ⟨⟨lastRunAt, hentries, ?_, ?_⟩, haccounted.increasing, ?_⟩
  · rintro rfl
    rw [List.eq_nil_iff_forall_not_mem]
    intro run' hrun'
    obtain ⟨last, hlast, -⟩ := haccounted.reached run' hrun'
    cases hlast
  · rintro expr created last hparsed hcreated rfl
    refine ⟨?_, (haccounted.counted hparsed hcreated rfl).2⟩
    intro t ht
    exact haccounted.covered hparsed hcreated rfl ht
  · exact EachStep.imp (T := fun _ _ => True) (fun s a h _ => h.evaluate a) (fun s a h _ => h.deferred) hstart
      (EachStep.of_forall (fun _ _ => trivial) state)

def hourlyEvaluations : List Evaluation :=
  [⟨1772335800000, none, none⟩, ⟨1772343000000, some { nightly := some ⟨0, 60⟩ }, none⟩, ⟨1772343000000, none, some 1⟩,
    ⟨1772350200000, none, none⟩]

theorem hourly_conserved : (runsOf (run SchedulerState.evaluate ⟨[hourly], []⟩ hourlyEvaluations).history
    hourly.id).Pairwise (·.scheduledFor < ·.scheduledFor) :=
  (cron_ticks_conserved ⟨[hourly], []⟩ hourly hourlyEvaluations (by decide +kernel) rfl rfl).2.1

example : (run SchedulerState.evaluate ⟨[hourly], []⟩ hourlyEvaluations).history.map (·.tickCount) = [3, 1, 3] := by
  decide +kernel

end Runs

end CrashLab.Cron
