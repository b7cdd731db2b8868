import CrashLab.AlertDispatcher

namespace CrashLab.Alerts

open JsStrings Histories

section Timers

variable {policy : AlertPolicy}

def Incident.core (incident : Incident) : Incident := { incident with notifiedAt := none, escalationLevel := 0 }

def SameCores (incidents later : Incidents) : Prop := later.map Incident.core = incidents.map Incident.core

theorem SameCores.modify (incidents : Incidents) (i : ℕ) {change : Incident → Incident}
    (hchange : ∀ incident, incidents[i]? = some incident → (change incident).core = incident.core) :
    SameCores incidents (incidents.modify i change) := by
  apply List.ext_getElem?
  intro j
  rw [List.getElem?_map, List.getElem?_map, List.getElem?_modify]
  by_cases hij : i = j
  · subst hij
    cases hincident : incidents[i]? with
    | none => rfl
    | some incident => simp [hchange incident hincident]
  · simp [hij]

theorem SameCores.before {incidents later : Incidents} (h : SameCores incidents later) {i : ℕ} {incident : Incident}
    (hi : later[i]? = some incident) : ∃ old, incidents[i]? = some old ∧ incident.core = old.core := by
  have hcore := congrArg (fun cores : List Incident => cores[i]?) h
  rw [List.getElem?_map, List.getElem?_map, hi, Option.map_some, eq_comm, Option.map_eq_some_iff] at hcore
  obtain ⟨old, hold, hsame⟩ := hcore
  exact ⟨old, hold, hsame.symm⟩

theorem SameCores.after {incidents later : Incidents} (h : SameCores incidents later) {i : ℕ} {old : Incident}
    (hi : incidents[i]? = some old) : ∃ incident, later[i]? = some incident ∧ incident.core = old.core := by
  obtain ⟨incident, hincident, hsame⟩ := SameCores.before (h.symm : SameCores later incidents) hi
  exact ⟨incident, hincident, hsame.symm⟩

def Numbered (incidents : Incidents) : Prop :=
  ∀ (i : ℕ) (incident : Incident), incidents[i]? = some incident → incident.id = i

theorem Numbered.of_sameCores {incidents later : Incidents} (hsame : SameCores incidents later)
    (h : Numbered incidents) : Numbered later := by
  intro i incident hi
  obtain ⟨old, hold, hcore⟩ := hsame.before hi
  exact (congrArg Incident.id hcore).trans (h i old hold)

variable {world next : World} {incident : Incident} {waiting : Waiting} {now elapsed : ℤ} {route : AlertRoute}
variable {sent : List AlertNotification}

theorem escalate_cores (hincident : world.incidents[incident.id]? = some incident)
    (h : escalate world incident now elapsed route sent = .wait next waiting) :
    SameCores world.incidents next.incidents := by
  unfold escalate at h
  split at h
  · cases h
  · cases h
    apply SameCores.modify
    intro other hother
    rw [hincident] at hother
    cases hother
    rfl

theorem visit_cores (hincident : world.incidents[incident.id]? = some incident)
    (h : visit policy world incident now sent = .wait next waiting) : SameCores world.incidents next.incidents := by
  unfold visit at h
  by_cases htriggered : incident.status ≠ .triggered
  · rw [if_pos htriggered] at h
    cases h
  · rw [if_neg htriggered] at h
    split at h
    · cases h
    · split at h
      · by_cases hquiet : isWithinQuietHours policy now = true
        · rw [if_pos hquiet] at h
          cases h
        · rw [if_neg hquiet] at h
          cases h
          apply SameCores.modify
          intro other hother
          rw [hincident] at hother
          cases hother
          rfl
      · exact escalate_cores hincident h

theorem walk_cores (hnumbered : Numbered world.incidents) (count position : ℕ) :
    SameCores world.incidents (walk policy world now sent count position).1.incidents := by
  induction count generalizing position with
  | zero => exact rfl
  | succ count ih =>
    rw [walk]
    cases hincident : world.incidents[position]? with
    | none => exact rfl
    | some incident =>
      have hid := hnumbered position incident hincident
      dsimp only
      cases hvisit : visit policy world incident now sent with
      | skip => exact ih (position + 1)
      | throw => exact rfl
      | wait next waiting => exact visit_cores (hid ▸ hincident) hvisit

theorem goOn_cores (hnumbered : Numbered world.incidents) (waiting : Waiting) (sent : List AlertNotification) :
    SameCores world.incidents (goOn policy world waiting sent).1.incidents := by
  unfold goOn
  split
  · exact rfl
  · exact walk_cores hnumbered _ _
  · cases hincident : world.incidents[waiting.incident]? with
    | none => exact rfl
    | some incident =>
      rename_i now elapsed route _
      have hid := hnumbered waiting.incident incident hincident
      dsimp only
      cases hescalate : escalate world incident now elapsed route sent with
      | skip => exact walk_cores hnumbered _ _
      | throw => exact rfl
      | wait next waiting => exact escalate_cores (hid ▸ hincident) hescalate

theorem proceed_cores (hnumbered : Numbered world.incidents) (waiting : Waiting) (delivered : Bool) :
    SameCores world.incidents (proceed policy world waiting delivered).1.incidents := by
  unfold proceed
  split
  · exact goOn_cores hnumbered _ _
  · rename_i channel left hleft
    by_cases hlast : left = []
    · dsimp only
      rw [if_pos hlast]
      exact goOn_cores hnumbered _ _
    · dsimp only
      rw [if_neg hlast]
      exact rfl

end Timers

section Opening

variable {policy : AlertPolicy} {world : World} {incidents : Incidents} {key : JsString} {incident : Incident}

def Incident.Open (key : JsString) (incident : Incident) : Prop := incident.dedupKey = key ∧ incident.status ≠ .resolved

theorem open_iff : (incident.dedupKey = key && incident.status ≠ .resolved : Bool) = true ↔ incident.Open key := by
  simp [Incident.Open]

structure FirstOpen (incidents : Incidents) (key : JsString) (i : ℕ) (incident : Incident) : Prop where
  holds : incidents[i]? = some incident
  isOpen : incident.Open key
  first : ∀ (j : ℕ) (other : Incident), j < i → incidents[j]? = some other → ¬other.Open key

theorem findOpen_eq_some (hnumbered : Numbered incidents) (h : findOpen incidents key = some incident) :
    FirstOpen incidents key incident.id incident := by
  unfold findOpen at h
  rw [List.find?_eq_some_iff_getElem] at h
  obtain ⟨hopen, i, hi, hincident, hbefore⟩ := h
  have hget : incidents[i]? = some incident := by rw [List.getElem?_eq_getElem hi, hincident]
  have hid := hnumbered i incident hget
  subst hid
  refine ⟨hget, open_iff.mp hopen, fun j other hj hother hisOpen => ?_⟩
  obtain ⟨hlt, rfl⟩ := List.getElem?_eq_some_iff.mp hother
  have hfalse := hbefore j hj
  rw [Bool.not_eq_true', Bool.eq_false_iff] at hfalse
  exact hfalse (open_iff.mpr hisOpen)

theorem findOpen_eq_none (h : findOpen incidents key = none) (incident : Incident) (hincident : incident ∈ incidents) :
    ¬incident.Open key := by
  unfold findOpen at h
  rw [List.find?_eq_none] at h
  exact fun hopen => h incident hincident (open_iff.mpr hopen)

theorem FirstOpen.le {i j : ℕ} {other : Incident} (h : FirstOpen incidents key i incident)
    (hother : incidents[j]? = some other) (hopen : other.Open key) : i ≤ j := by
  by_contra hlt
  exact h.first j other (not_le.mp hlt) hother hopen

end Opening

section Watching

variable (policy : AlertPolicy)

/-- The dispatcher with the incident and the instant of the last ingest of each key. -/
structure Watch where
  world : World := {}
  last : JsString → Option (ℕ × ℤ) := fun _ => none

def Watch.step (watch : Watch) (event : Event) : Watch where
  world := watch.world.step policy event
  last :=
    match event with
    | .ingest event now =>
      match (ingest policy watch.world event now).2 with
      | some result => Function.update watch.last result.incident.dedupKey (some (result.incident.id, now))
      | none => watch.last
    | _ => watch.last

def AllResolved (incidents : Incidents) (key : JsString) : Prop := ∀ incident ∈ incidents, ¬incident.Open key

structure Repeats (watch : Watch) (event : AlertEvent) (now : ℤ) (decision : RoutingDecision) (incident : Incident)
    (last : ℤ) : Prop where
  routed : resolveRoute policy event now = some decision
  ingested : watch.last decision.dedupKey = some (incident.id, last)
  within : now - last < decision.dedupWindowMinutes * minuteMs
  holds : watch.world.incidents[incident.id]? = some incident
  unresolved : incident.status ≠ .resolved

/-- A repeat updates its incident and nothing else; what is reported as over leaves nothing of its key open. -/
def Deduplicates (watch : Watch) : Event → Prop
  | .ingest event now => ∀ decision incident last, Repeats policy watch event now decision incident last →
      ∃ seen, seen = { incident with occurrences := incident.occurrences + 1, lastSeenAt := now } ∧
        (ingest policy watch.world event now).2 = some ⟨seen, .deduplicated⟩ ∧
        (ingest policy watch.world event now).1.incidents = watch.world.incidents.set incident.id seen
  | .clear key note now => AllResolved (watch.world.step policy (.clear key note now)).incidents key
  | .applyRemoteStatus key .resolved actor now =>
    AllResolved (watch.world.step policy (.applyRemoteStatus key .resolved actor now)).incidents key
  | _ => True

def Lone (incidents : Incidents) (key : JsString) : Prop :=
  ∀ (i j : ℕ) (a b : Incident), incidents[i]? = some a → incidents[j]? = some b → a.Open key → b.Open key → i = j

/-- No older incident of the key is open at a repeat, and at most one when the key is reported as over. -/
def Uncrowded (watch : Watch) : Event → Prop
  | .ingest event now => ∀ decision incident last, Repeats policy watch event now decision incident last →
      ∀ (i : ℕ) (older : Incident), i < incident.id → watch.world.incidents[i]? = some older →
        ¬older.Open decision.dedupKey
  | .clear key _ _ => Lone watch.world.incidents key
  | .applyRemoteStatus key .resolved _ _ => Lone watch.world.incidents key
  | _ => True

structure Watch.Sound (watch : Watch) : Prop where
  numbered : Numbered watch.world.incidents
  last : ∀ key id last, watch.last key = some (id, last) →
    ∃ incident, watch.world.incidents[id]? = some incident ∧ incident.dedupKey = key ∧ incident.lastSeenAt = last

end Watching

section Lifecycles

variable {policy : AlertPolicy} {world : World} {id : ℕ} {key : JsString} {status : RemoteStatus} {actor : JsString}
variable {origin : LifecycleOrigin} {now : ℤ} {note : Option JsString} {incident : Incident}

theorem transition_incidents (policy : AlertPolicy) (world : World) (id : ℕ) (status : RemoteStatus) (actor : JsString)
    (origin : LifecycleOrigin) (now : ℤ) (note : Option JsString) :
    (transition policy world id status actor origin now note).incidents = world.incidents ∨
      ∃ incident, world.incidents[id]? = some incident ∧ incident.status ≠ .resolved ∧
        (transition policy world id status actor origin now note).incidents =
          world.incidents.set id (settled incident status actor now note) := by
  unfold transition
  cases hincident : world.incidents[id]? with
  | none => exact .inl rfl
  | some incident =>
    dsimp only
    by_cases hdone : incident.status = .resolved ∨ incident.status = status.status
    · rw [if_pos hdone]
      exact .inl rfl
    · rw [if_neg hdone]
      rw [not_or] at hdone
      refine .inr ⟨incident, rfl, hdone.1, ?_⟩
      change world.incidents.modify id _ = _
      rw [List.modify_eq_set_getElem?]
      simp [hincident]

theorem settled_same (incident : Incident) (status : RemoteStatus) (actor : JsString) (now : ℤ)
    (note : Option JsString) : (settled incident status actor now note).id = incident.id ∧
      (settled incident status actor now note).dedupKey = incident.dedupKey ∧
      (settled incident status actor now note).lastSeenAt = incident.lastSeenAt ∧
      (settled incident status actor now note).status = status.status := by
  cases status <;> exact ⟨rfl, rfl, rfl, rfl⟩

theorem transitionKey_resolved (hnumbered : Numbered world.incidents) :
    AllResolved (transitionKey policy world key .resolved actor origin now note).incidents key ↔
      Lone world.incidents key := by
  unfold transitionKey
  cases hopen : findOpen world.incidents key with
  | none =>
    have hnone := findOpen_eq_none hopen
    refine iff_of_true hnone fun i j a b ha _ hisOpen _ => ?_
    exact absurd hisOpen (hnone a (List.mem_of_getElem? ha))
  | some incident =>
    have hfirst := findOpen_eq_some hnumbered hopen
    have hmoved : (transition policy world incident.id .resolved actor origin now note).incidents =
        world.incidents.set incident.id (settled incident .resolved actor now note) := by
      have hgoes : ¬(incident.status = .resolved ∨ incident.status = RemoteStatus.resolved.status) :=
        not_or.mpr ⟨hfirst.isOpen.2, hfirst.isOpen.2⟩
      unfold transition
      rw [hfirst.holds]
      dsimp only
      rw [if_neg hgoes]
      change world.incidents.modify incident.id _ = _
      rw [List.modify_eq_set_getElem?]
      simp [hfirst.holds]
    dsimp only
    rw [hmoved]
    constructor
    · intro hall i j a b ha hb haOpen hbOpen
      have hat : ∀ (k : ℕ) (c : Incident), world.incidents[k]? = some c → c.Open key → k = incident.id := by
        intro k c hc hcOpen
        by_contra hne
        refine hall c (List.mem_of_getElem? (i := k) ?_) hcOpen
        rw [List.getElem?_set_ne (Ne.symm hne)]
        exact hc
      rw [hat i a ha haOpen, hat j b hb hbOpen]
    · intro hlone other hother hotherOpen
      obtain ⟨k, hk⟩ := List.getElem?_of_mem hother
      by_cases hne : incident.id = k
      · subst hne
        rw [List.getElem?_set_self (List.getElem?_eq_some_iff.mp hfirst.holds).1] at hk
        cases hk
        exact hotherOpen.2 (settled_same incident .resolved actor now note).2.2.2
      · rw [List.getElem?_set_ne hne] at hk
        exact hne (hlone _ _ _ _ hfirst.holds hk hfirst.isOpen hotherOpen)

end Lifecycles

section Ingests

variable {policy : AlertPolicy} {watch : Watch} {event : AlertEvent} {now last : ℤ} {decision : RoutingDecision}
variable {incident : Incident}

theorem ingest_within {world : World} {first : Incident} (hrouted : resolveRoute policy event now = some decision)
    (hopen : findOpen world.incidents decision.dedupKey = some first)
    (hfirst : world.incidents[first.id]? = some first)
    (hwithin : now - first.lastSeenAt < decision.dedupWindowMinutes * minuteMs) :
    (ingest policy world event now).2 =
        some ⟨{ first with occurrences := first.occurrences + 1, lastSeenAt := now }, .deduplicated⟩ ∧
      (ingest policy world event now).1.incidents =
        world.incidents.set first.id { first with occurrences := first.occurrences + 1, lastSeenAt := now } := by
  unfold ingest
  rw [hrouted]
  dsimp only
  rw [hopen, Option.filter_some, if_pos (decide_eq_true hwithin)]
  refine ⟨rfl, ?_⟩
  change world.incidents.modify first.id _ = _
  rw [List.modify_eq_set_getElem?]
  simp [hfirst]

theorem ingest_created (world : World) (hrouted : resolveRoute policy event now = some decision)
    (hlapsed : ∀ first, findOpen world.incidents decision.dedupKey = some first →
      ¬ now - first.lastSeenAt < decision.dedupWindowMinutes * minuteMs) :
    ∃ created, created.id = world.incidents.length ∧ created.dedupKey = decision.dedupKey ∧
      created.lastSeenAt = now ∧ (ingest policy world event now).2 = some ⟨created, .created⟩ ∧
      (ingest policy world event now).1.incidents = world.incidents ++ [created] := by
  have hfilter : ((findOpen world.incidents decision.dedupKey).filter fun incident =>
      now - incident.lastSeenAt < decision.dedupWindowMinutes * minuteMs) = none := by
    cases hopen : findOpen world.incidents decision.dedupKey with
    | none => rfl
    | some first => rw [Option.filter_some, if_neg (by simpa using hlapsed first hopen)]
  unfold ingest
  rw [hrouted]
  dsimp only
  rw [hfilter]
  exact ⟨_, rfl, rfl, rfl, rfl, rfl⟩

theorem Watch.Sound.repeats_iff (hsound : watch.Sound) (h : Repeats policy watch event now decision incident last) :
    (∃ seen, seen = { incident with occurrences := incident.occurrences + 1, lastSeenAt := now } ∧
        (ingest policy watch.world event now).2 = some ⟨seen, .deduplicated⟩ ∧
        (ingest policy watch.world event now).1.incidents = watch.world.incidents.set incident.id seen) ↔
      ∀ (i : ℕ) (older : Incident), i < incident.id → watch.world.incidents[i]? = some older →
        ¬older.Open decision.dedupKey := by
  obtain ⟨found, hfound, hkey, hlast⟩ := hsound.last _ _ _ h.ingested
  rw [h.holds] at hfound
  cases hfound
  have hincidentOpen : incident.Open decision.dedupKey := ⟨hkey, h.unresolved⟩
  cases hopen : findOpen watch.world.incidents decision.dedupKey with
  | none => exact absurd hincidentOpen (findOpen_eq_none hopen incident (List.mem_of_getElem? h.holds))
  | some first =>
    have hfirst := findOpen_eq_some hsound.numbered hopen
    have hle := hfirst.le h.holds hincidentOpen
    constructor
    · rintro ⟨seen, hseen, hresult, -⟩ i older hi holder holderOpen
      have hbefore : first.id < incident.id := (hfirst.le holder holderOpen).trans_lt hi
      by_cases hwithin : now - first.lastSeenAt < decision.dedupWindowMinutes * minuteMs
      · rw [(ingest_within h.routed hopen hfirst.holds hwithin).1, hseen] at hresult
        have hid : first.id = incident.id := congrArg (fun result : IngestResult => result.incident.id) (Option.some.inj hresult)
        exact hbefore.ne hid
      · obtain ⟨created, -, -, -, hcreated, -⟩ := ingest_created watch.world h.routed fun other hother => by
          rw [hopen] at hother
          cases hother
          exact hwithin
        rw [hcreated] at hresult
        cases hresult
    · intro holder
      have hsame : first.id = incident.id := by
        by_contra hne
        exact holder first.id first (lt_of_le_of_ne hle hne) hfirst.holds hfirst.isOpen
      have hincident := h.holds
      rw [← hsame, hfirst.holds] at hincident
      cases hincident
      have hwithin : now - incident.lastSeenAt < decision.dedupWindowMinutes * minuteMs := by
        rw [hlast]
        exact h.within
      exact ⟨_, rfl, ingest_within h.routed hopen h.holds hwithin⟩

end Ingests

section Runs

variable {policy : AlertPolicy} {watch : Watch}

theorem Numbered.set {incidents : Incidents} (h : Numbered incidents) {id : ℕ} {next : Incident} (hid : next.id = id) :
    Numbered (incidents.set id next) := by
  intro i incident hi
  by_cases hne : id = i
  · subst hne
    rw [List.getElem?_set_self'] at hi
    obtain ⟨-, -, rfl⟩ := Option.map_eq_some_iff.mp hi
    exact hid
  · rw [List.getElem?_set_ne hne] at hi
    exact h i incident hi

theorem Numbered.append {incidents : Incidents} (h : Numbered incidents) {created : Incident}
    (hid : created.id = incidents.length) : Numbered (incidents ++ [created]) := by
  intro i incident hi
  by_cases hlt : i < incidents.length
  · rw [List.getElem?_append_left hlt] at hi
    exact h i incident hi
  · rw [List.getElem?_append_right (not_lt.mp hlt)] at hi
    cases hrest : i - incidents.length with
    | zero =>
      rw [hrest] at hi
      cases hi
      omega
    | succ n =>
      rw [hrest] at hi
      cases hi

theorem Watch.Sound.of_kept (h : watch.Sound) {incidents : Incidents} {world : World}
    (hworld : world.incidents = incidents) (hnumbered : Numbered incidents)
    (hkept : ∀ (i : ℕ) (old : Incident), watch.world.incidents[i]? = some old → ∃ incident, incidents[i]? = some incident ∧
      incident.dedupKey = old.dedupKey ∧ incident.lastSeenAt = old.lastSeenAt) :
    ({ watch with world } : Watch).Sound where
  numbered := hworld ▸ hnumbered
  last key id last hlast := by
    obtain ⟨old, hold, hkey, hseen⟩ := h.last key id last hlast
    obtain ⟨incident, hincident, hsameKey, hsameSeen⟩ := hkept id old hold
    exact ⟨incident, hworld ▸ hincident, hsameKey.trans hkey, hsameSeen.trans hseen⟩

theorem Watch.Sound.same (h : watch.Sound) {world : World} (hworld : world.incidents = watch.world.incidents) :
    ({ watch with world } : Watch).Sound :=
  h.of_kept hworld h.numbered fun _ old hold => ⟨old, hold, rfl, rfl⟩

theorem Watch.Sound.timers (h : watch.Sound) {world : World} (hsame : SameCores watch.world.incidents world.incidents) :
    ({ watch with world } : Watch).Sound := by
  refine h.of_kept rfl (h.numbered.of_sameCores hsame) fun i old hold => ?_
  obtain ⟨incident, hincident, hcore⟩ := hsame.after hold
  have hkey : incident.core.dedupKey = old.core.dedupKey := congrArg _ hcore
  have hseen : incident.core.lastSeenAt = old.core.lastSeenAt := congrArg _ hcore
  exact ⟨incident, hincident, hkey, hseen⟩

theorem Watch.Sound.transition (h : watch.Sound) (id : ℕ) (status : RemoteStatus) (actor : JsString)
    (origin : LifecycleOrigin) (now : ℤ) (note : Option JsString) :
    ({ watch with world := Alerts.transition policy watch.world id status actor origin now note } : Watch).Sound := by
  obtain hsame | ⟨incident, hincident, -, hset⟩ :=
    transition_incidents policy watch.world id status actor origin now note
  · exact h.same hsame
  · obtain ⟨hid, hkey, hseen, -⟩ := settled_same incident status actor now note
    refine h.of_kept hset (h.numbered.set (hid.trans (h.numbered id incident hincident))) fun i old hold => ?_
    by_cases hne : id = i
    · subst hne
      rw [hincident] at hold
      cases hold
      exact ⟨_, List.getElem?_set_self (List.getElem?_eq_some_iff.mp hincident).1, hkey, hseen⟩
    · exact ⟨old, by rw [List.getElem?_set_ne hne]; exact hold, rfl, rfl⟩

theorem Watch.Sound.transitionKey (h : watch.Sound) (key : JsString) (status : RemoteStatus) (actor : JsString)
    (origin : LifecycleOrigin) (now : ℤ) (note : Option JsString) :
    ({ watch with world := Alerts.transitionKey policy watch.world key status actor origin now note } : Watch).Sound := by
  unfold Alerts.transitionKey
  cases findOpen watch.world.incidents key with
  | none => exact h.same rfl
  | some incident => exact h.transition _ _ _ _ _ _

theorem Watch.Sound.ingest (h : watch.Sound) (event : AlertEvent) (now : ℤ) :
    (watch.step policy (.ingest event now)).Sound := by
  cases hrouted : resolveRoute policy event now with
  | none =>
    have hnone : Alerts.ingest policy watch.world event now = (watch.world.open .threw, none) := by
      unfold Alerts.ingest
      rw [hrouted]
    unfold Watch.step World.step
    dsimp only
    rw [hnone]
    exact h.same rfl
  | some decision =>
    by_cases hwithin : ∃ first, findOpen watch.world.incidents decision.dedupKey = some first ∧
        now - first.lastSeenAt < decision.dedupWindowMinutes * minuteMs
    · obtain ⟨first, hopen, hwithin⟩ := hwithin
      have hfirst := findOpen_eq_some h.numbered hopen
      obtain ⟨hresult, hincidents⟩ := ingest_within hrouted hopen hfirst.holds hwithin
      have hself := List.getElem?_set_self (List.getElem?_eq_some_iff.mp hfirst.holds).1
        (a := { first with occurrences := first.occurrences + 1, lastSeenAt := now })
      unfold Watch.step World.step
      dsimp only
      rw [hresult]
      refine ⟨hincidents ▸ h.numbered.set rfl, fun key id last hlast => ?_⟩
      dsimp only at hlast ⊢
      rw [hincidents]
      by_cases hkey : key = first.dedupKey
      · subst hkey
        rw [Function.update_self] at hlast
        cases hlast
        exact ⟨_, hself, rfl, rfl⟩
      · rw [Function.update_of_ne hkey] at hlast
        obtain ⟨old, hold, holdKey, hseen⟩ := h.last key id last hlast
        have hne : first.id ≠ id := by
          rintro rfl
          rw [hfirst.holds] at hold
          cases hold
          exact hkey holdKey.symm
        exact ⟨old, by rw [List.getElem?_set_ne hne]; exact hold, holdKey, hseen⟩
    · obtain ⟨created, hid, hkey, hseen, hresult, hincidents⟩ :=
        ingest_created watch.world hrouted fun first hopen hin => hwithin ⟨first, hopen, hin⟩
      unfold Watch.step World.step
      dsimp only
      rw [hresult]
      refine ⟨hincidents ▸ h.numbered.append hid, fun key id last hlast => ?_⟩
      dsimp only at hlast ⊢
      rw [hincidents]
      by_cases hsame : key = created.dedupKey
      · subst hsame
        rw [Function.update_self] at hlast
        cases hlast
        refine ⟨created, ?_, rfl, hseen⟩
        rw [hid, List.getElem?_concat_length]
      · rw [Function.update_of_ne hsame] at hlast
        obtain ⟨old, hold, holdKey, holdSeen⟩ := h.last key id last hlast
        exact ⟨old, (List.getElem?_append_left (List.getElem?_eq_some_iff.mp hold).1).trans hold, holdKey, holdSeen⟩

theorem Watch.Sound.step (h : watch.Sound) (event : Event) : (watch.step policy event).Sound := by
  cases event with
  | ingest event now => exact h.ingest event now
  | acknowledge id actor now => exact h.transition _ _ _ _ _ _
  | resolve id actor note now => exact h.transition _ _ _ _ _ _
  | applyRemoteStatus key status actor now => exact h.transitionKey _ _ _ _ _ _
  | clear key note now => exact h.transitionKey _ _ _ _ _ _
  | tick now => exact h.timers (walk_cores h.numbered _ _)
  | settles call delivered =>
    apply h.timers
    unfold World.step
    dsimp only
    split
    · exact proceed_cores h.numbered _ _
    · exact rfl

theorem Watch.Sound.deduplicates_iff (h : watch.Sound) (event : Event) :
    Deduplicates policy watch event ↔ Uncrowded policy watch event := by
  cases event with
  | ingest event now =>
    exact forall_congr' fun decision => forall_congr' fun incident => forall_congr' fun last =>
      forall_congr' fun hrepeats => h.repeats_iff hrepeats
  | applyRemoteStatus key status actor now =>
    cases status with
    | acknowledged => exact Iff.rfl
    | resolved => exact transitionKey_resolved h.numbered
  | clear key note now => exact transitionKey_resolved h.numbered
  | acknowledge id actor now => exact Iff.rfl
  | resolve id actor note now => exact Iff.rfl
  | tick now => exact Iff.rfl
  | settles call delivered => exact Iff.rfl

theorem Watch.sound_empty : ({} : Watch).Sound where
  numbered i incident hi := by
    rw [show ({} : Watch).world.incidents = [] from rfl, List.getElem?_nil] at hi
    cases hi
  last key id last hlast := by cases hlast

theorem alert_dedup_iff (policy : AlertPolicy) (events : List Event) :
    EachStep (Watch.step policy) (Deduplicates policy) {} events ↔
      EachStep (Watch.step policy) (Uncrowded policy) {} events :=
  eachStep_iff (fun _ event h _ => h.step event) (fun _ event h => h.deduplicates_iff event) Watch.sound_empty events

section Storm

def stormPolicy : AlertPolicy where
  dedupWindowMinutes := 30
  ackSlaMinutes := 15
  routes := [
    { id := ofString "catch-all"
      matchSource := ofString "*"
      matchSeverity := [.critical, .error, .warning, .info]
      channels := [.slack]
      dedupKey := [.source, .severity, .fingerprint]
      respectQuietHours := false
      escalation := [] }]

def stormEvent : AlertEvent := ⟨ofString "slo-burn", .error, ofString "latency", ofString "slow"⟩

def stormRun : List Event :=
  [.ingest stormEvent 0, .ingest stormEvent (31 * minuteMs), .ingest stormEvent (32 * minuteMs)]

theorem lapse_then_storm : ¬EachStep (Watch.step stormPolicy) (Deduplicates stormPolicy) {} stormRun := by
  rintro ⟨-, -, hthird, -⟩
  let watch := run (Watch.step stormPolicy) {} (stormRun.take 2)
  have hsecond : watch.world.incidents[1]?.map (fun incident => (incident.id, incident.status)) = some (1, .triggered) := by
    decide +kernel
  have hdecision : (resolveRoute stormPolicy stormEvent (32 * minuteMs)).map (fun decision =>
      (watch.last decision.dedupKey, decision.dedupWindowMinutes)) = some (some (1, 31 * minuteMs), 30) := by
    decide +kernel
  have hcreated : (ingest stormPolicy watch.world stormEvent (32 * minuteMs)).2.map IngestResult.outcome =
      some .created := by
    decide +kernel
  obtain ⟨incident, hincident, hpair⟩ := Option.map_eq_some_iff.mp hsecond
  obtain ⟨decision, hrouted, hlast⟩ := Option.map_eq_some_iff.mp hdecision
  rw [Prod.mk.injEq] at hpair hlast
  obtain ⟨hid, hstatus⟩ := hpair
  have hrepeats : Repeats stormPolicy watch stormEvent (32 * minuteMs) decision incident (31 * minuteMs) := by
    refine ⟨hrouted, hlast.1.trans (by rw [hid]), ?_, by rw [hid]; exact hincident, by rw [hstatus]; decide⟩
    rw [hlast.2]
    decide
  obtain ⟨seen, -, hresult, -⟩ := hthird decision incident (31 * minuteMs) hrepeats
  rw [show (ingest stormPolicy watch.world stormEvent (32 * minuteMs)).2 = _ from hresult] at hcreated
  cases hcreated

end Storm

end Runs

end CrashLab.Alerts
