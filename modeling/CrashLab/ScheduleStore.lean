import CrashLab.CampaignQuotas
import CrashLab.NextRun

namespace CrashLab.Cron

open JsStrings Capacity

def defaultScheduleClass : CampaignClass := .nightly

inductive MisfirePolicy where
  | skip
  | runImmediately
deriving DecidableEq, Repr

inductive OverlapPolicy where
  | skip
  | allow
  | queue
deriving DecidableEq, Repr

structure CronPolicy where
  misfire : MisfirePolicy
  catchUpCap : ℕ
  overlap : OverlapPolicy
deriving DecidableEq, Repr

def defaultMisfirePolicy : MisfirePolicy := .runImmediately

def defaultOverlapPolicy : OverlapPolicy := .skip

def defaultCatchUpCap : ℕ := 3

/-- Instants are milliseconds since the epoch; one that is `none` is a text that is no date. -/
structure Schedule where
  id : JsString
  name : JsString
  cron : JsString
  enabled : Bool
  createdAt : Option ℕ
  updatedAt : Option ℕ
  lastRunAt : Option ℕ
  campaignClass : Option CampaignClass := none
  policy : Option CronPolicy := none
deriving DecidableEq

def Schedule.firingClass (schedule : Schedule) : CampaignClass := schedule.campaignClass.getD defaultScheduleClass

def scheduledRunTag : String := "scheduled"

structure ScheduledRun where
  id : JsString
  scheduleId : JsString
  scheduleName : JsString
  cron : JsString
  scheduledFor : ℕ
  executedAt : ℕ
  tickCount : ℕ
  caughtUp : Bool
  tags : List String
  idempotencyKey : JsString
  campaignClass : CampaignClass
deriving DecidableEq

structure ScheduleInput where
  name : JsString
  cron : JsString
  enabled : Option Bool := none
  campaignClass : Option CampaignClass := none
  misfirePolicy : Option MisfirePolicy := none
  misfireCatchUpCap : Option ℕ := none
  overlapPolicy : Option OverlapPolicy := none
deriving DecidableEq

def createSchedule (input : ScheduleInput) (now : Option ℕ) (id : JsString) : Except CronParseError Schedule :=
  match cronErrorMessage input.cron with
  | some cronError => .error cronError
  | none => .ok {
      id := id
      name := trim input.name
      cron := trim input.cron
      enabled := input.enabled.getD true
      createdAt := now
      updatedAt := now
      lastRunAt := none
      campaignClass := input.campaignClass
      policy := some {
        misfire := input.misfirePolicy.getD defaultMisfirePolicy
        catchUpCap := input.misfireCatchUpCap.getD defaultCatchUpCap
        overlap := input.overlapPolicy.getD defaultOverlapPolicy } }

def addSchedule (list : List Schedule) (schedule : Schedule) : List Schedule := list ++ [schedule]

structure SchedulePatch where
  name : Option JsString := none
  cron : Option JsString := none
  enabled : Option Bool := none
  campaignClass : Option CampaignClass := none
  misfire : Option MisfirePolicy := none
  overlap : Option OverlapPolicy := none
  catchUpCap : Option ℕ := none
deriving DecidableEq

def SchedulePatch.patchPolicy (patch : SchedulePatch) (policy : Option CronPolicy) : Option CronPolicy :=
  if patch.misfire.isSome ∨ patch.overlap.isSome ∨ patch.catchUpCap.isSome then
    some {
      misfire := (patch.misfire.or (policy.map (·.misfire))).getD defaultMisfirePolicy
      catchUpCap := (patch.catchUpCap.or (policy.map (·.catchUpCap))).getD defaultCatchUpCap
      overlap := (patch.overlap.or (policy.map (·.overlap))).getD defaultOverlapPolicy }
  else policy

def SchedulePatch.patchCron (patch : SchedulePatch) (schedule : Schedule) : Except CronParseError Schedule :=
  match patch.cron with
  | none => .ok schedule
  | some cron =>
    match cronErrorMessage cron with
    | some cronError => .error cronError
    | none => .ok {
        schedule with
        cron := trim cron
        lastRunAt := if trim cron ≠ schedule.cron then none else schedule.lastRunAt }

def SchedulePatch.apply (patch : SchedulePatch) (now : Option ℕ) (schedule : Schedule) :
    Except CronParseError Schedule := do
  let next ← patch.patchCron { schedule with name := (patch.name.map trim).getD schedule.name }
  return {
    next with
    enabled := patch.enabled.getD next.enabled
    campaignClass := patch.campaignClass.or next.campaignClass
    policy := patch.patchPolicy next.policy
    updatedAt := now }

def updateSchedule (list : List Schedule) (id : JsString) (patch : SchedulePatch) (now : Option ℕ) :
    Except CronParseError (List Schedule) :=
  list.mapM fun schedule => if schedule.id ≠ id then .ok schedule else patch.apply now schedule

section Entries

def entries (list : List Schedule) (id : JsString) : List Schedule := list.filter (·.id = id)

def runsOf (history : List ScheduledRun) (id : JsString) : List ScheduledRun := history.filter (·.scheduleId = id)

@[simp] theorem runsOf_append (history more : List ScheduledRun) (id : JsString) :
    runsOf (history ++ more) id = runsOf history id ++ runsOf more id := List.filter_append ..

theorem mem_runsOf {history : List ScheduledRun} {id : JsString} {run : ScheduledRun} :
    run ∈ runsOf history id ↔ run ∈ history ∧ run.scheduleId = id := by
  simp [runsOf]

theorem mem_entries {list : List Schedule} {id : JsString} {schedule : Schedule} :
    schedule ∈ entries list id ↔ schedule ∈ list ∧ schedule.id = id := by
  simp [entries]

theorem entries_map {list : List Schedule} {f : Schedule → Schedule} (hf : ∀ schedule, (f schedule).id = schedule.id)
    (id : JsString) : entries (list.map f) id = (entries list id).map f := by
  rw [entries, entries, List.filter_map]
  congr 2
  funext schedule
  simp [hf]

theorem entries_addSchedule (list : List Schedule) (schedule : Schedule) (id : JsString) :
    entries (addSchedule list schedule) id = entries list id ++ if schedule.id = id then [schedule] else [] := by
  rw [entries, addSchedule, List.filter_append, List.filter_singleton]
  simp [entries]

end Entries

end CrashLab.Cron
