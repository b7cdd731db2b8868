import CrashLab.AlertDedup

namespace CrashLab.Alerts

open JsStrings Histories

section Progress

variable {policy : AlertPolicy} {world next : World} {incident : Incident} {waiting : Waiting} {now elapsed : ℤ}
variable {route : AlertRoute} {sent : List AlertNotification}

def levels (incidents : Incidents) : List ℕ := incidents.map Incident.escalationLevel

inductive Progress (world next : World) : Option IncidentStatus → Prop
  | none (fired : next.fired = world.fired) (same : levels next.incidents = levels world.incidents) :
      Progress world next none
  | step {id : ℕ} {incident : Incident} (holds : world.incidents[id]? = some incident)
      (fired : next.fired = world.fired ++ [⟨id, incident.escalationLevel, incident.status⟩])
      (raised : levels next.incidents = (levels world.incidents).set id (incident.escalationLevel + 1)) :
      Progress world next (some incident.status)

theorem none_started : ∀ status ∈ (none : Option IncidentStatus), status = .triggered := by simp

theorem levels_modify {incidents : Incidents} {id : ℕ} {next : Incident} :
    levels (incidents.modify id fun _ => next) = (levels incidents).set id next.escalationLevel := by
  apply List.ext_getElem?
  intro i
  rw [levels, List.getElem?_map, List.getElem?_modify, List.getElem?_set', levels, List.getElem?_map]
  by_cases hi : id = i
  · cases incidents[i]? <;> simp [hi]
  · cases incidents[i]? <;> simp [hi]

theorem levels_set_same {incidents : Incidents} {id : ℕ} {old next : Incident} (hold : incidents[id]? = some old)
    (hlevel : next.escalationLevel = old.escalationLevel) :
    levels (incidents.set id next) = levels incidents := by
  apply List.ext_getElem?
  intro i
  rw [levels, List.getElem?_map, levels, List.getElem?_map, List.getElem?_set']
  by_cases hi : id = i
  · subst hi
    rw [if_pos rfl, hold]
    exact congrArg some hlevel
  · rw [if_neg hi]

theorem escalate_progress (hincident : world.incidents[incident.id]? = some incident)
    (h : escalate world incident now elapsed route sent = .wait next waiting) :
    Progress world next (some incident.status) := by
  unfold escalate at h
  split at h
  · cases h
  · cases h
    exact .step hincident rfl levels_modify

theorem escalate_wait_iff : (∃ next waiting, escalate world incident now elapsed route sent = .wait next waiting) ↔
    (dueStep incident elapsed route).isSome = true := by
  unfold escalate
  cases dueStep incident elapsed route with
  | none => simp
  | some step => simp

theorem visit_progress (hincident : world.incidents[incident.id]? = some incident)
    (h : visit policy world incident now sent = .wait next waiting) :
    ∃ started, Progress world next started ∧ ∀ status ∈ started, status = .triggered := by
  unfold visit at h
  by_cases htriggered : incident.status ≠ .triggered
  · rw [if_pos htriggered] at h
    cases h
  · rw [if_neg htriggered] at h
    split at h
    · cases h
    · split at h
      · by_cases hquiet : isWithinQuietHours policy now = true
        · rw [if_pos hquiet] at h
          cases h
        · rw [if_neg hquiet] at h
          cases h
          refine ⟨none, .none rfl ?_, none_started⟩
          change levels (world.incidents.modify incident.id _) = _
          rw [List.modify_eq_set_getElem?, hincident]
          exact levels_set_same hincident rfl
      · refine ⟨_, escalate_progress hincident h, fun status hstatus => ?_⟩
        cases hstatus
        exact not_not.mp htriggered

theorem walk_progress (policy : AlertPolicy) (hnumbered : Numbered world.incidents) (now : ℤ)
    (sent : List AlertNotification) (count position : ℕ) :
    ∃ started, Progress world (walk policy world now sent count position).1 started ∧
      ∀ status ∈ started, status = .triggered := by
  induction count generalizing position with
  | zero => exact ⟨none, .none rfl rfl, none_started⟩
  | succ count ih =>
    rw [walk]
    cases hincident : world.incidents[position]? with
    | none => exact ⟨none, .none rfl rfl, none_started⟩
    | some incident =>
      have hid := hnumbered position incident hincident
      dsimp only
      cases hvisit : visit policy world incident now sent with
      | skip => exact ih (position + 1)
      | throw => exact ⟨none, .none rfl rfl, none_started⟩
      | wait next waiting => exact visit_progress (hid ▸ hincident) hvisit

end Progress

section Resuming

variable {policy : AlertPolicy} {world : World}

structure Overdue (world : World) (waiting : Waiting) (incident : Incident) : Prop where
  last : waiting.left.length ≤ 1
  holds : world.incidents[waiting.incident]? = some incident
  due : ∃ now elapsed route, waiting.after = .escalation now elapsed route ∧
    (dueStep incident elapsed route).isSome = true

theorem goOn_progress (policy : AlertPolicy) (hnumbered : Numbered world.incidents) (waiting : Waiting) (sent : List AlertNotification)
    (hlast : waiting.left.length ≤ 1) : ∃ started, Progress world (goOn policy world waiting sent).1 started ∧
      ((∃ incident, Overdue world waiting incident ∧ started = some incident.status) ∨
        (∀ incident, ¬Overdue world waiting incident) ∧ ∀ status ∈ started, status = .triggered) := by
  unfold goOn
  cases hafter : waiting.after with
  | returns =>
    refine ⟨none, .none rfl rfl, .inr ⟨fun incident hdue => ?_, none_started⟩⟩
    obtain ⟨_, _, _, hescalation, -⟩ := hdue.due
    rw [hafter] at hescalation
    cases hescalation
  | nextIncident now =>
    obtain ⟨started, hprogress, htriggered⟩ := walk_progress policy hnumbered _ _ _ _
    refine ⟨started, hprogress, .inr ⟨fun incident hdue => ?_, htriggered⟩⟩
    obtain ⟨_, _, _, hescalation, -⟩ := hdue.due
    rw [hafter] at hescalation
    cases hescalation
  | escalation now elapsed route =>
    dsimp only
    cases hincident : world.incidents[waiting.incident]? with
    | none =>
      refine ⟨none, .none rfl rfl, .inr ⟨fun incident hdue => ?_, none_started⟩⟩
      have hholds := hdue.holds
      rw [hincident] at hholds
      cases hholds
    | some incident =>
      have hid := hnumbered waiting.incident incident hincident
      have hdueIff : ∀ other, Overdue world waiting other ↔
          other = incident ∧ (dueStep incident elapsed route).isSome = true := by
        intro other
        constructor
        · rintro ⟨-, hholds, _, _, _, hescalation, hdue⟩
          rw [hincident] at hholds
          rw [hafter] at hescalation
          cases hholds
          cases hescalation
          exact ⟨rfl, hdue⟩
        · rintro ⟨rfl, hdue⟩
          exact ⟨hlast, hincident, now, elapsed, route, hafter, hdue⟩
      dsimp only
      cases hescalate : escalate world incident now elapsed route sent with
      | skip =>
        obtain ⟨started, hprogress, htriggered⟩ := walk_progress policy hnumbered now sent _ _
        refine ⟨started, hprogress, .inr ⟨fun other hother => ?_, htriggered⟩⟩
        obtain ⟨next, waiting, hwait⟩ := escalate_wait_iff.mpr ((hdueIff other).mp hother).2
        rw [hescalate] at hwait
        cases hwait
      | throw =>
        unfold escalate at hescalate
        split at hescalate <;> cases hescalate
      | wait next waiting' =>
        have hdue := escalate_wait_iff.mp ⟨next, waiting', hescalate⟩
        exact ⟨_, escalate_progress (hid ▸ hincident) hescalate, .inl ⟨incident, (hdueIff incident).mpr ⟨rfl, hdue⟩, rfl⟩⟩

theorem proceed_progress (policy : AlertPolicy) (hnumbered : Numbered world.incidents) (waiting : Waiting) (delivered : Bool) :
    ∃ started, Progress world (proceed policy world waiting delivered).1 started ∧
      ((∃ incident, Overdue world waiting incident ∧ started = some incident.status) ∨
        (∀ incident, ¬Overdue world waiting incident) ∧ ∀ status ∈ started, status = .triggered) := by
  unfold proceed
  split
  · rename_i hleft
    exact goOn_progress policy hnumbered waiting _ (by simp [hleft])
  · rename_i channel left hleft
    dsimp only
    by_cases hlast : left = []
    · rw [if_pos hlast]
      exact goOn_progress policy hnumbered waiting _ (by simp [hleft, hlast])
    · rw [if_neg hlast]
      refine ⟨none, .none rfl rfl, .inr ⟨fun incident hdue => ?_, none_started⟩⟩
      have hshort := hdue.last
      rw [hleft, List.length_cons] at hshort
      exact hlast (List.eq_nil_of_length_eq_zero (by omega))

end Resuming

section Orders

variable {policy : AlertPolicy} {world next : World}

/-- The steps that an incident has fired are those below its level, each once and in order. -/
structure Orderly (world : World) : Prop where
  known : ∀ fired ∈ world.fired, fired.incident < world.incidents.length
  inOrder : ∀ (id level : ℕ), (levels world.incidents)[id]? = some level →
    (world.fired.filter fun fired => fired.incident = id).map Fired.step = List.range level

def Unanswered (world : World) : Prop := ∀ fired ∈ world.fired, fired.status = .triggered

/-- A tick that comes back with a further step due finds its incident still unanswered. -/
def StillTriggered (world : World) : Event → Prop
  | .settles call _ => ∀ waiting incident, world.calls[call]? = some (.waiting waiting) →
      Overdue world waiting incident → incident.status = .triggered
  | _ => True

theorem Orderly.progress {started : Option IncidentStatus} (h : Orderly world) (hprogress : Progress world next started) :
    Orderly next := by
  cases hprogress with
  | none hfired hsame =>
    have hlength : next.incidents.length = world.incidents.length := by simpa [levels] using congrArg List.length hsame
    refine ⟨fun fired hmem => ?_, fun id level hlevel => ?_⟩
    · rw [hlength]
      exact h.known fired (hfired ▸ hmem)
    · rw [hfired]
      exact h.inOrder id level (hsame ▸ hlevel)
  | @step id incident hholds hfired hraised =>
    have hlength : next.incidents.length = world.incidents.length := by simpa [levels] using congrArg List.length hraised
    have hid := (List.getElem?_eq_some_iff.mp hholds).1
    have hlevel : (levels world.incidents)[id]? = some incident.escalationLevel := by
      rw [levels, List.getElem?_map, hholds]
      rfl
    refine ⟨fun fired hmem => ?_, fun other level hother => ?_⟩
    · rw [hlength]
      rw [hfired, List.mem_append, List.mem_singleton] at hmem
      obtain hmem | rfl := hmem
      · exact h.known fired hmem
      · exact hid
    · rw [hfired, List.filter_append, List.map_append]
      rw [hraised, List.getElem?_set'] at hother
      by_cases hsame : id = other
      · subst hsame
        rw [if_pos rfl, hlevel] at hother
        cases hother
        rw [h.inOrder id _ hlevel]
        simp [List.range_succ]
      · rw [if_neg hsame] at hother
        rw [h.inOrder other level hother]
        simp [hsame]

theorem Unanswered.progress_iff {started : Option IncidentStatus} (h : Unanswered world)
    (hprogress : Progress world next started) : Unanswered next ↔ ∀ status ∈ started, status = .triggered := by
  unfold Unanswered
  cases hprogress with
  | none hfired hsame =>
    rw [hfired]
    exact iff_of_true h none_started
  | @step id incident hholds hfired hraised =>
    rw [hfired]
    constructor
    · intro hnext status hstatus
      cases hstatus
      exact hnext _ (List.mem_append_right _ (List.mem_singleton_self _))
    · intro hstatus fired hmem
      rw [List.mem_append, List.mem_singleton] at hmem
      obtain hmem | rfl := hmem
      · exact h fired hmem
      · exact hstatus _ rfl

theorem transition_progress (policy : AlertPolicy) (world : World) (id : ℕ) (status : RemoteStatus) (actor : JsString)
    (origin : LifecycleOrigin) (now : ℤ) (note : Option JsString) :
    Progress world (transition policy world id status actor origin now note) none := by
  have hfired : (transition policy world id status actor origin now note).fired = world.fired := by
    unfold transition
    split
    · rfl
    · dsimp only
      split_ifs <;> rfl
  obtain hsame | ⟨incident, hincident, -, hset⟩ :=
    transition_incidents policy world id status actor origin now note
  · exact .none hfired (by rw [hsame])
  · refine .none hfired ?_
    rw [hset]
    apply levels_set_same hincident
    cases status <;> rfl

theorem transitionKey_progress (policy : AlertPolicy) (world : World) (key : JsString) (status : RemoteStatus)
    (actor : JsString) (origin : LifecycleOrigin) (now : ℤ) (note : Option JsString) :
    Progress world (transitionKey policy world key status actor origin now note) none := by
  unfold transitionKey
  cases findOpen world.incidents key with
  | none => exact .none rfl rfl
  | some incident => exact transition_progress policy world incident.id status actor origin now note

theorem ingest_fired (policy : AlertPolicy) (world : World) (event : AlertEvent) (now : ℤ) :
    (ingest policy world event now).1.fired = world.fired := by
  unfold ingest
  split
  · rfl
  · split
    · rfl
    · rfl

theorem Orderly.ingest (h : Orderly world) (hnumbered : Numbered world.incidents) (event : AlertEvent) (now : ℤ) :
    Orderly (ingest policy world event now).1 := by
  have hfired := ingest_fired policy world event now
  cases hrouted : resolveRoute policy event now with
  | none =>
    have hnone : Alerts.ingest policy world event now = (world.open .threw, none) := by
      unfold Alerts.ingest
      rw [hrouted]
    rw [hnone]
    exact ⟨h.known, h.inOrder⟩
  | some decision =>
    by_cases hwithin : ∃ first, findOpen world.incidents decision.dedupKey = some first ∧
        now - first.lastSeenAt < decision.dedupWindowMinutes * minuteMs
    · obtain ⟨first, hopen, hwithin⟩ := hwithin
      have hfirst := findOpen_eq_some hnumbered hopen
      have hincidents := (ingest_within hrouted hopen hfirst.holds hwithin).2
      exact h.progress (.none hfired (by rw [hincidents]; exact levels_set_same hfirst.holds rfl))
    · have hsplit : ∃ created : Incident, created.escalationLevel = 0 ∧
          (Alerts.ingest policy world event now).1.incidents = world.incidents ++ [created] := by
        have hfilter : ((findOpen world.incidents decision.dedupKey).filter fun incident =>
            now - incident.lastSeenAt < decision.dedupWindowMinutes * minuteMs) = none := by
          cases hopen : findOpen world.incidents decision.dedupKey with
          | none => rfl
          | some first => rw [Option.filter_some, if_neg (by simpa using fun hin => hwithin ⟨first, hopen, hin⟩)]
        unfold Alerts.ingest
        rw [hrouted]
        dsimp only
        rw [hfilter]
        exact ⟨_, rfl, rfl⟩
      obtain ⟨created, hlevel, hincidents⟩ := hsplit
      refine ⟨fun fired hmem => ?_, fun id level hid => ?_⟩
      · have hknown := h.known fired (hfired ▸ hmem)
        rw [hincidents, List.length_append]
        omega
      · rw [hfired]
        rw [hincidents, levels, List.map_append] at hid
        change (levels world.incidents ++ _)[id]? = _ at hid
        by_cases hlt : id < (levels world.incidents).length
        · rw [List.getElem?_append_left hlt] at hid
          exact h.inOrder id level hid
        · rw [List.getElem?_append_right (not_lt.mp hlt)] at hid
          have hempty : (world.fired.filter fun fired => fired.incident = id) = [] := by
            rw [List.filter_eq_nil_iff]
            intro fired hmem hsame
            have hknown := h.known fired hmem
            rw [decide_eq_true_eq] at hsame
            rw [levels, List.length_map] at hlt
            omega
          obtain ⟨hzero, hone⟩ := List.getElem?_eq_some_iff.mp hid
          simp only [List.map_cons, List.map_nil, List.getElem_singleton, hlevel] at hone
          rw [hempty, ← hone]
          rfl

end Orders

section Runs

variable {policy : AlertPolicy} {world : World}

theorem Numbered.step (h : Numbered world.incidents) (event : Event) :
    Numbered (world.step policy event).incidents := by
  have hwatch : ({ world } : Watch).Sound := ⟨h, fun key id last hlast => by cases hlast⟩
  have hnext : (Watch.step policy { world } event).Sound := hwatch.step event
  exact hnext.numbered

theorem Progress.recalled {next : World} {started : Option IncidentStatus} (h : Progress world next started)
    (calls : List Call) : Progress world { next with calls } started := by
  cases h with
  | none hfired hsame => exact .none hfired hsame
  | step hholds hfired hraised => exact .step hholds hfired hraised

theorem step_progress (policy : AlertPolicy) (hnumbered : Numbered world.incidents) (event : Event)
    (hother : ∀ alert now, event ≠ .ingest alert now) :
    ∃ started, Progress world (world.step policy event) started ∧
      (StillTriggered world event ↔ ∀ status ∈ started, status = .triggered) := by
  cases event with
  | ingest alert now => exact absurd rfl (hother alert now)
  | acknowledge id actor now => exact ⟨none, transition_progress _ _ _ _ _ _ _ _, iff_of_true trivial none_started⟩
  | resolve id actor note now => exact ⟨none, transition_progress _ _ _ _ _ _ _ _, iff_of_true trivial none_started⟩
  | applyRemoteStatus key status actor now =>
    exact ⟨none, transitionKey_progress _ _ _ _ _ _ _ _, iff_of_true trivial none_started⟩
  | clear key note now => exact ⟨none, transitionKey_progress _ _ _ _ _ _ _ _, iff_of_true trivial none_started⟩
  | tick now =>
    obtain ⟨started, hprogress, htriggered⟩ := walk_progress policy hnumbered now []
      (world.incidents.length - 0) 0
    exact ⟨started, hprogress.recalled _, iff_of_true trivial htriggered⟩
  | settles call delivered =>
    by_cases hwaits : ∃ waiting, world.calls[call]? = some (.waiting waiting)
    · obtain ⟨waiting, hcall⟩ := hwaits
      obtain ⟨started, hprogress, hcases⟩ := proceed_progress policy hnumbered waiting delivered
      refine ⟨started, ?_, ?_⟩
      · simp only [World.step, hcall]
        exact hprogress.recalled _
      · constructor
        · intro hstill
          obtain ⟨incident, hoverdue, rfl⟩ | ⟨-, htriggered⟩ := hcases
          · intro status hstatus
            cases hstatus
            exact hstill waiting incident hcall hoverdue
          · exact htriggered
        · intro htriggered other incident hother hoverdue
          rw [hcall] at hother
          cases hother
          obtain ⟨found, hfound, rfl⟩ | ⟨hnone, -⟩ := hcases
          · have hsame := hfound.holds
            rw [hoverdue.holds] at hsame
            cases hsame
            exact htriggered _ rfl
          · exact absurd hoverdue (hnone incident)
    · have hstays : world.step policy (.settles call delivered) = world := by
        unfold World.step
        dsimp only
        split
        · rename_i waiting hcall
          exact absurd ⟨waiting, hcall⟩ hwaits
        · rfl
      rw [hstays]
      exact ⟨none, .none rfl rfl, iff_of_true (fun waiting incident hwaiting => absurd ⟨waiting, hwaiting⟩ hwaits)
        none_started⟩

theorem Orderly.step (h : Orderly world) (hnumbered : Numbered world.incidents) (event : Event) :
    Orderly (world.step policy event) := by
  by_cases hingest : ∃ alert now, event = .ingest alert now
  · obtain ⟨alert, now, rfl⟩ := hingest
    exact h.ingest hnumbered alert now
  · obtain ⟨started, hprogress, -⟩ := step_progress policy hnumbered event fun alert now hsame =>
      hingest ⟨alert, now, hsame⟩
    exact h.progress hprogress

theorem Unanswered.step_iff (h : Unanswered world) (hnumbered : Numbered world.incidents) (event : Event) :
    Unanswered (world.step policy event) ↔ StillTriggered world event := by
  by_cases hingest : ∃ alert now, event = .ingest alert now
  · obtain ⟨alert, now, rfl⟩ := hingest
    have hkept : Unanswered (world.step policy (.ingest alert now)) := by
      unfold Unanswered
      rw [show (world.step policy (.ingest alert now)).fired = world.fired from ingest_fired policy world alert now]
      exact h
    exact iff_of_true hkept trivial
  · obtain ⟨started, hprogress, hstill⟩ := step_progress policy hnumbered event fun alert now hsame =>
      hingest ⟨alert, now, hsame⟩
    rw [h.progress_iff hprogress, hstill]

theorem numbered_empty : Numbered ({} : World).incidents := Watch.sound_empty.numbered

theorem orderly_empty : Orderly {} where
  known fired hmem := by cases hmem
  inOrder id level hlevel := by cases hlevel

theorem escalation_iff (policy : AlertPolicy) (events : List Event) :
    Always (World.step policy) Orderly {} events ∧
      (Always (World.step policy) Unanswered {} events ↔ EachStep (World.step policy) StillTriggered {} events) := by
  constructor
  · exact Always.of_invariant (I := fun world => Orderly world ∧ Numbered world.incidents)
      (fun world event h => ⟨h.1.step h.2 event, h.2.step event⟩) (fun world h => h.1)
      ⟨orderly_empty, numbered_empty⟩ events
  · have hstart : Unanswered {} := fun fired hmem => by cases hmem
    rw [always_iff_eachStep hstart]
    exact eachStep_iff (I := fun world => Unanswered world ∧ Numbered world.incidents)
      (fun world event h hnext => ⟨hnext, h.2.step event⟩)
      (fun world event h => h.1.step_iff h.2 event) ⟨hstart, numbered_empty⟩ events

section Late

def escalatingPolicy : AlertPolicy where
  dedupWindowMinutes := 30
  ackSlaMinutes := 15
  routes := [
    { id := ofString "catch-all"
      matchSource := ofString "*"
      matchSeverity := [.critical, .error, .warning, .info]
      channels := [.slack]
      dedupKey := [.source, .severity, .fingerprint]
      respectQuietHours := false
      escalation := [⟨10, [.slack]⟩, ⟨30, [.pagerduty]⟩] }]

def lateRun : List Event :=
  [.ingest stormEvent 0, .tick (40 * minuteMs), .acknowledge 0 (ofString "oncall") (40 * minuteMs), .settles 1 true]

theorem fires_after_acknowledgement :
    ¬(Always (World.step escalatingPolicy) Orderly {} lateRun ∧
      Always (World.step escalatingPolicy) Unanswered {} lateRun) := by
  rintro ⟨-, hunanswered⟩
  have hlate : (⟨0, 1, .acknowledged⟩ : Fired) ∈ (run (World.step escalatingPolicy) {} lateRun).fired := by
    decide +kernel
  have hstatus := hunanswered.run _ hlate
  cases hstatus

end Late

end Runs

end CrashLab.Alerts
