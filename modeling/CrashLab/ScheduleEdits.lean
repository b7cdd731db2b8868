import CrashLab.CronGrammar
import CrashLab.TickCoverage

namespace CrashLab.Cron

open Fallible Histories JsStrings LeastWalks
open CampaignQuotas (SchedulingWindows isWindowOpen)

inductive SchedulerEvent where
  | create (input : ScheduleInput) (now : Option ℕ) (id : JsString)
  | update (id : JsString) (patch : SchedulePatch) (now : Option ℕ)
  | evaluate (evaluation : Evaluation)
deriving DecidableEq

def SchedulerState.handle (state : SchedulerState) : SchedulerEvent → SchedulerState
  | .create input now id =>
    match createSchedule input now id with
    | .error _ => state
    | .ok schedule => { state with schedules := addSchedule state.schedules schedule }
  | .update id patch now =>
    match updateSchedule state.schedules id patch now with
    | .error _ => state
    | .ok schedules => { state with schedules := schedules }
  | .evaluate evaluation => state.evaluate evaluation

section Patches

variable {patch : SchedulePatch} {now : Option ℕ} {x x' : Schedule}

theorem SchedulePatch.apply_ok (h : patch.apply now x = .ok x') :
    x'.id = x.id ∧ (x'.lastRunAt = none ∨ x'.cron = x.cron ∧ x'.lastRunAt = x.lastRunAt) := by
  unfold SchedulePatch.apply SchedulePatch.patchCron at h
  cases hcron : patch.cron with
  | none =>
    rw [hcron] at h
    cases h
    exact ⟨rfl, Or.inr ⟨rfl, rfl⟩⟩
  | some cron =>
    rw [hcron] at h
    cases herror : cronErrorMessage cron with
    | some cronError =>
      simp only [herror] at h
      cases h
    | none =>
      simp only [herror] at h
      cases h
      refine ⟨rfl, ?_⟩
      by_cases hsame : trim cron = x.cron
      · exact Or.inr ⟨hsame, by simp [hsame]⟩
      · exact Or.inl (by simp [hsame])

def Patched (id : JsString) (patch : SchedulePatch) (now : Option ℕ) (x x' : Schedule) : Prop :=
  (if x.id ≠ id then .ok x else patch.apply now x) = Except.ok x'

theorem Patched.spec {id : JsString} (h : Patched id patch now x x') :
    x'.id = x.id ∧ (x'.lastRunAt = none ∨ x'.cron = x.cron ∧ x'.lastRunAt = x.lastRunAt) := by
  unfold Patched at h
  split_ifs at h
  · cases h
    exact ⟨rfl, Or.inr ⟨rfl, rfl⟩⟩
  · exact SchedulePatch.apply_ok h

theorem updateSchedule_entries {list list' : List Schedule} {id : JsString}
    (h : updateSchedule list id patch now = .ok list') (i : JsString) :
    List.Forall₂ (Patched id patch now) (entries list i) (entries list' i) := by
  have hall : List.Forall₂ (Patched id patch now) list list' := mapM_eq_ok.mp h
  clear h
  induction hall with
  | nil => exact .nil
  | @cons x x' _ _ hpatched _ ih =>
    have hid := hpatched.spec.1
    by_cases hi : x.id = i
    · rw [entries, entries, List.filter_cons_of_pos (by simpa using hi),
        List.filter_cons_of_pos (by simpa [hid] using hi)]
      exact .cons hpatched ih
    · rw [entries, entries, List.filter_cons_of_neg (by simpa using hi),
        List.filter_cons_of_neg (by simpa [hid] using hi)]
      exact ih

end Patches

section Advancing

/-- The runs of a schedule are for later and later slots, and none counts an instant that an earlier one has passed. -/
def Advancing (runs : List ScheduledRun) : Prop :=
  runs.Pairwise fun earlier later =>
    earlier.scheduledFor < later.scheduledFor ∧ ∀ t, Covers later t → earlier.scheduledFor < t

def Clear (expr : CronExpression) (anchor : ℕ) (runs : List ScheduledRun) : Prop :=
  ∀ run ∈ runs, ∀ t, Matches expr t → anchor < t → run.scheduledFor < t

/-- A schedule whose anchor is null, as an edit of its expression leaves it, is evaluated only where no instant past its
creation was passed by a run it has; or else the last due tick has a run, and past it there is no such instant. -/
def ResetsClear (state : SchedulerState) (evaluation : Evaluation) : Prop :=
  ∀ x ∈ state.schedules, x.lastRunAt = none → ∀ expr created lastTick, x.Live expr created →
    ((state.input evaluation).dueTicks expr created).getLast? = some lastTick →
    isWindowOpen (state.input evaluation).openWindows x.firingClass evaluation.now = true →
    Clear expr created (runsOf state.history x.id) ∨
      alreadyRecorded state.history x.id lastTick = true ∧ Clear expr lastTick (runsOf state.history x.id)

def FreshId (state : SchedulerState) : SchedulerEvent → Prop
  | .create _ _ id => entries state.schedules id = []
  | _ => True

def EditSafe (state : SchedulerState) : SchedulerEvent → Prop
  | .evaluate evaluation => ResetsClear state evaluation
  | _ => True

structure Tidy (id : JsString) (state : SchedulerState) : Prop where
  advancing : Advancing (runsOf state.history id)
  anchored : entries state.schedules id = [] ∧ runsOf state.history id = [] ∨
    ∃ x, entries state.schedules id = [x] ∧ ∀ expr last, parseCron x.cron = .ok expr → x.lastRunAt = some last →
      Clear expr last (runsOf state.history id)

variable {input : TickInput} {x x' : Schedule} {runs more : List ScheduledRun} {expr : CronExpression}
  {anchor lastTick : ℕ} {id : JsString} {state : SchedulerState}

theorem Clear.lt_last (h : Clear expr anchor runs) (last : (input.dueTicks expr anchor).getLast? = some lastTick) :
    ∀ run ∈ runs, run.scheduledFor < lastTick := by
  intro run hrun
  obtain ⟨hlt, -, hmatch⟩ := dueTicks_last last
  exact h run hrun lastTick hmatch hlt

theorem Advancing.concat (h : Advancing runs) (live : x.Live expr anchor) (hclear : Clear expr anchor runs)
    (last : (input.dueTicks expr anchor).getLast? = some lastTick) :
    Advancing (runs ++ [newRun input x (input.dueTicks expr anchor) lastTick]) := by
  rw [Advancing, List.pairwise_append]
  refine ⟨h, List.pairwise_singleton _ _, ?_⟩
  intro run hrun new hnew
  rw [List.mem_singleton.mp hnew]
  refine ⟨hclear.lt_last last run hrun, ?_⟩
  intro t hcovers
  obtain ⟨hlt, -, hmatch⟩ := mem_slots.mp ((covers_newRun live last).mp hcovers)
  exact hclear run hrun t hmatch hlt

theorem Clear.concat (hclear : Clear expr anchor runs)
    (last : (input.dueTicks expr anchor).getLast? = some lastTick) :
    Clear expr lastTick (runs ++ [newRun input x (input.dueTicks expr anchor) lastTick]) := by
  intro run hrun t hmatch hlt
  rcases List.mem_append.mp hrun with hrun | hrun
  · exact (hclear.lt_last last run hrun).trans hlt
  · rw [List.mem_singleton.mp hrun]
    exact hlt

end Advancing

section Steps

variable {id : JsString} {state : SchedulerState}

theorem Tidy.evaluate (h : Tidy id state) {evaluation : Evaluation} (hsafe : ResetsClear state evaluation) :
    Tidy id (state.evaluate evaluation) := by
  rcases h.anchored with ⟨hnone, hruns⟩ | ⟨x, hx, hclear⟩
  · have hkept : runsOf (state.evaluate evaluation).history id = runsOf state.history id :=
      runsOf_evaluateTick_nil hnone
    refine ⟨hkept ▸ h.advancing, Or.inl ⟨?_, hkept.trans hruns⟩⟩
    exact (entries_evaluateTick _ id).trans (congrArg _ hnone)
  · obtain ⟨hmem, rfl⟩ : x ∈ state.schedules ∧ x.id = id := mem_entries.mp (hx ▸ List.mem_singleton_self x)
    obtain ⟨x', more, hadvance, hx', hruns⟩ := @evaluateTick_advance _ (state.input evaluation) hx
    change runsOf (state.evaluate evaluation).history x.id = runsOf state.history x.id ++ more at hruns
    change entries (state.evaluate evaluation).schedules x.id = [x'] at hx'
    -- Past the anchor there is nothing the runs have passed, unless the last due tick has a run.
    have hpast : ∀ {expr anchor lastTick}, x.Live expr anchor →
        ((state.input evaluation).dueTicks expr anchor).getLast? = some lastTick →
        isWindowOpen (state.input evaluation).openWindows x.firingClass evaluation.now = true →
        Clear expr anchor (runsOf state.history x.id) ∨
          alreadyRecorded state.history x.id lastTick = true ∧ Clear expr lastTick (runsOf state.history x.id) := by
      intro expr anchor lastTick live last opened
      cases hanchor : x.lastRunAt with
      | none => exact hsafe x hmem hanchor expr anchor lastTick live last opened
      | some anchor' =>
        have hsame := live.anchored
        rw [Schedule.anchor, hanchor, Option.some_or, Option.some_inj] at hsame
        exact Or.inl (hclear expr anchor live.parsed (hsame ▸ hanchor))
    cases hadvance with
    | stay =>
      rw [List.append_nil] at hruns
      exact ⟨hruns ▸ h.advancing, Or.inr ⟨x, hx', hruns ▸ hclear⟩⟩
    | @recorded expr anchor lastTick live last opened found =>
      rw [List.append_nil] at hruns
      refine ⟨hruns ▸ h.advancing, Or.inr ⟨_, hx', ?_⟩⟩
      intro expr' last' hparsed hlast'
      obtain rfl := Except.ok.inj (live.parsed.symm.trans hparsed)
      obtain rfl := Option.some.inj hlast'
      rw [hruns]
      rcases hpast live last opened with hall | ⟨-, hrest⟩
      · obtain ⟨run, hrun, heq⟩ := alreadyRecorded_iff.mp found
        exact absurd heq (hall.lt_last last run hrun).ne
      · exact hrest
    | @created expr anchor lastTick live last opened fresh =>
      have hall : Clear expr anchor (runsOf state.history x.id) := by
        rcases hpast live last opened with hall | ⟨hfound, -⟩
        · exact hall
        · exact absurd hfound (Bool.eq_false_iff.mp fresh)
      refine ⟨?_, Or.inr ⟨_, hx', ?_⟩⟩
      · rw [hruns]
        exact h.advancing.concat live hall last
      · intro expr' last' hparsed hlast'
        obtain rfl := Except.ok.inj (live.parsed.symm.trans hparsed)
        obtain rfl := Option.some.inj hlast'
        rw [hruns]
        exact hall.concat last

theorem Tidy.update (h : Tidy id state) {target : JsString} {patch : SchedulePatch} {now : Option ℕ}
    {schedules : List Schedule} (hupdate : updateSchedule state.schedules target patch now = .ok schedules) :
    Tidy id { state with schedules := schedules } := by
  have hentries := updateSchedule_entries hupdate id
  refine ⟨h.advancing, ?_⟩
  rcases h.anchored with ⟨hnone, hruns⟩ | ⟨x, hx, hclear⟩
  · rw [hnone, List.forall₂_nil_left_iff] at hentries
    exact Or.inl ⟨hentries, hruns⟩
  · rw [hx, List.forall₂_cons_left_iff] at hentries
    obtain ⟨x', rest, hpatched, hrest, hx'⟩ := hentries
    rw [List.forall₂_nil_left_iff] at hrest
    refine Or.inr ⟨x', by rw [hx', hrest], ?_⟩
    intro expr last hparsed hlast
    rcases hpatched.spec.2 with hreset | ⟨hcron, hanchor⟩
    · rw [hreset] at hlast
      cases hlast
    · exact hclear expr last (hcron ▸ hparsed) (hanchor ▸ hlast)

theorem createSchedule_ok {input : ScheduleInput} {now : Option ℕ} {schedule : Schedule}
    (h : createSchedule input now id = .ok schedule) : schedule.id = id ∧ schedule.lastRunAt = none := by
  unfold createSchedule at h
  split at h
  · cases h
  · cases h
    exact ⟨rfl, rfl⟩

theorem Tidy.handle (h : Tidy id state) {event : SchedulerEvent} (hfresh : FreshId state event)
    (hsafe : EditSafe state event) : Tidy id (state.handle event) := by
  cases event with
  | evaluate evaluation => exact h.evaluate hsafe
  | update target patch now =>
    cases hupdate : updateSchedule state.schedules target patch now with
    | error message => simpa only [SchedulerState.handle, hupdate] using h
    | ok schedules => simpa only [SchedulerState.handle, hupdate] using h.update hupdate
  | create input now newId =>
    cases hcreate : createSchedule input now newId with
    | error message => simpa only [SchedulerState.handle, hcreate] using h
    | ok schedule =>
      simp only [SchedulerState.handle, hcreate]
      obtain ⟨rfl, hunfired⟩ := createSchedule_ok hcreate
      refine ⟨h.advancing, ?_⟩
      by_cases hid : schedule.id = id
      · subst hid
        have hnone : entries state.schedules schedule.id = [] := hfresh
        refine Or.inr ⟨schedule, by simp [entries_addSchedule, hnone], ?_⟩
        intro expr last hparsed hlast
        rw [hunfired] at hlast
        cases hlast
      · simpa [entries_addSchedule, hid] using h.anchored

end Steps

section Runs

theorem tidy_of_unfired {schedules : List Schedule} (hdistinct : (schedules.map (·.id)).Nodup)
    (unfired : ∀ x ∈ schedules, x.lastRunAt = none) (id : JsString) : Tidy id ⟨schedules, []⟩ := by
  refine ⟨List.Pairwise.nil, ?_⟩
  cases hentries : entries schedules id with
  | nil => exact Or.inl ⟨rfl, rfl⟩
  | cons x rest =>
    have hnodup : ((entries schedules id).map (·.id)).Nodup := hdistinct.sublist (List.filter_sublist.map _)
    have hrest : rest = [] := by
      rw [hentries, List.map_cons, List.nodup_cons] at hnodup
      rw [List.eq_nil_iff_forall_not_mem]
      intro y hy
      have hy' : y ∈ entries schedules id := hentries ▸ List.mem_cons_of_mem x hy
      have hx' : x ∈ entries schedules id := hentries ▸ List.mem_cons_self
      apply hnodup.1
      rw [(mem_entries.mp hx').2, ← (mem_entries.mp hy').2]
      exact List.mem_map_of_mem hy
    refine Or.inr ⟨x, by rw [hrest], ?_⟩
    intro expr last hparsed hlast
    have hx' : x ∈ entries schedules id := hentries ▸ List.mem_cons_self
    rw [unfired x (mem_entries.mp hx').1] at hlast
    cases hlast

theorem edits_keep_advancing (schedules : List Schedule) (events : List SchedulerEvent)
    (hdistinct : (schedules.map (·.id)).Nodup) (unfired : ∀ x ∈ schedules, x.lastRunAt = none)
    (hfresh : EachStep SchedulerState.handle FreshId ⟨schedules, []⟩ events)
    (hsafe : EachStep SchedulerState.handle EditSafe ⟨schedules, []⟩ events) (id : JsString) :
    Always SchedulerState.handle (fun state => Advancing (runsOf state.history id)) ⟨schedules, []⟩ events := by
  have hstart := tidy_of_unfired hdistinct unfired id
  have hboth : EachStep SchedulerState.handle (fun s e => FreshId s e ∧ EditSafe s e) ⟨schedules, []⟩ events :=
    (eachStep_and _ _).mpr ⟨hfresh, hsafe⟩
  apply (always_iff_eachStep (P := fun state : SchedulerState => Advancing (runsOf state.history id))
    hstart.advancing events).mpr
  exact EachStep.imp (fun _ _ h hstep => h.handle hstep.1 hstep.2)
    (fun _ _ h hstep => (h.handle hstep.1 hstep.2).advancing) hstart hboth

def SchedulerEvent.clock : SchedulerEvent → Option ℕ
  | create _ now _ => now
  | update _ _ now => now
  | evaluate evaluation => some evaluation.now

def renamed : List SchedulerEvent :=
  [.evaluate ⟨1772335800000, none, none⟩, .update hourly.id { name := some (ofString "Smoke") } (some 1772336100000),
    .evaluate ⟨1772339400000, none, none⟩]

theorem renamed_advances : Always SchedulerState.handle (fun state => Advancing (runsOf state.history hourly.id))
    ⟨[hourly], []⟩ renamed := by
  apply edits_keep_advancing [hourly] renamed (by decide +kernel) (by decide +kernel) ⟨trivial, trivial, trivial, trivial⟩
  refine ⟨?_, trivial, ?_, trivial⟩
  · intro x _ _ expr created lastTick _ _ _
    exact Or.inl fun run hrun => by cases hrun
  · have hfired : ∀ x ∈ (run SchedulerState.handle ⟨[hourly], []⟩ (renamed.take 2)).schedules, x.lastRunAt ≠ none := by
      decide +kernel
    intro x hx hnone
    exact absurd hnone (hfired x hx)

def retimed : List SchedulerEvent :=
  [.evaluate ⟨1772335800000, none, none⟩, .update hourly.id { cron := some (ofString "30 * * * *") } (some 1772336100000),
    .evaluate ⟨1772336700000, none, none⟩]

def halfHours : CronExpression where
  source := ofString "30 * * * *"
  minute := [30]
  hour := List.range 24
  dayOfMonth := (List.range 31).map (· + 1)
  month := (List.range 12).map (· + 1)
  dayOfWeek := List.range 7
  dayOfMonthRestricted := false
  dayOfWeekRestricted := false

theorem edits_advancing_fails : ¬ ∀ (schedules : List Schedule) (events : List SchedulerEvent),
    (schedules.map (·.id)).Nodup → (∀ x ∈ schedules, x.lastRunAt = none) →
    EachStep SchedulerState.handle FreshId ⟨schedules, []⟩ events →
    (events.filterMap SchedulerEvent.clock).Pairwise (· ≤ ·) →
    ∀ id, Advancing (runsOf (run SchedulerState.handle ⟨schedules, []⟩ events).history id) := by
  -- the run after the edit goes back to the creation, and counts the half hours that the run before it has passed
  intro h
  have hadvancing := h [hourly] retimed (by decide +kernel) (by decide +kernel) ⟨trivial, trivial, trivial, trivial⟩
    (by decide +kernel) hourly.id
  let before := SchedulerState.input ⟨[hourly], []⟩ ⟨1772335800000, none, none⟩
  let after := (run SchedulerState.handle ⟨[hourly], []⟩ (retimed.take 2)).input ⟨1772336700000, none, none⟩
  let edited : Schedule := { hourly with cron := halfHours.source, updatedAt := some 1772336100000 }
  have hruns : runsOf (run SchedulerState.handle ⟨[hourly], []⟩ retimed).history hourly.id =
      [newRun before hourly [1772326800000, 1772330400000, 1772334000000] 1772334000000,
        newRun after edited (after.dueTicks halfHours 1772323200000) 1772335800000] := by
    decide +kernel
  have live : edited.Live halfHours 1772323200000 := ⟨rfl, by decide +kernel, rfl⟩
  have last : (after.dueTicks halfHours 1772323200000).getLast? = some 1772335800000 := by decide +kernel
  have hslot : 1772325000000 ∈ slots halfHours 1772323200000 1772335800000 := by
    rw [mem_slots]
    decide +kernel
  rw [hruns, Advancing, List.pairwise_pair] at hadvancing
  have hlate := hadvancing.2 1772325000000 ((covers_newRun live last).mpr hslot)
  revert hlate
  decide +kernel

end Runs

end CrashLab.Cron
