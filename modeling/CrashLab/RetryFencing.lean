import CrashLab.RetryBudget

namespace CrashLab.WebhookRetryQueue

open Histories KeyedLists WebhookDelivery WebhookDlq

def Superseded (calls : List DeliverCall) (number : ℕ) (id : String) : Prop :=
  ∃ call ∈ calls.drop (number + 1), call.job.id = id

def ScheduledIdle (s : State) : Event → Prop
  | .schedule input _ _ => ∀ call ∈ s.calls, call.waiting = true → call.job.id ≠ input.request.id
  | _ => True

def timing (job : RetryJob) : ℕ × Option ℤ × ℤ := (job.attempt, job.leaseExpiresAt, job.nextAttemptAt)

variable (urlHost : String → Option String) (options : WebhookRetryQueueOptions)

def FencesLate (s : State) : Event → Prop
  | .settle number result now random => ∀ job, s.calls[number]? = some ⟨job, true⟩ → Superseded s.calls number job.id →
    (get RetryJob.id job.id (settle options s number result now random).jobs).map timing =
      (get RetryJob.id job.id s.jobs).map timing
  | _ => True

def KeepsCount (s : State) (event : Event) : Prop :=
  ∀ job ∈ s.jobs, ¬event.schedules job.id → ∀ later ∈ (step urlHost options s event).jobs, later.id = job.id →
    job.attempt ≤ later.attempt

def OnlyCurrent (s : State) : Event → Prop
  | .settle number _ _ _ => ∀ job, s.calls[number]? = some ⟨job, true⟩ → Superseded s.calls number job.id →
    ∀ current ∈ s.jobs, current.id ≠ job.id
  | _ => True

structure Fenced (s : State) : Prop where
  unique : UniqueKeys RetryJob.id s.jobs
  behind : ∀ number job, s.calls[number]? = some ⟨job, true⟩ → Superseded s.calls number job.id →
    ∀ current ∈ s.jobs, current.id = job.id → job.attempt < current.attempt
  current : ∀ number job, s.calls[number]? = some ⟨job, true⟩ → ¬Superseded s.calls number job.id →
    ∀ current ∈ s.jobs, current.id = job.id → current = job

variable {urlHost options} {s : State} {number : ℕ} {id : String}

theorem superseded_iff {calls : List DeliverCall} : Superseded calls number id ↔
    ∃ later call, number < later ∧ calls[later]? = some call ∧ call.job.id = id := by
  constructor
  · rintro ⟨call, hcall, hid⟩
    obtain ⟨n, hn⟩ := List.mem_iff_getElem?.mp hcall
    rw [List.getElem?_drop] at hn
    exact ⟨number + 1 + n, call, by omega, hn, hid⟩
  · rintro ⟨later, call, hlt, hcall, hid⟩
    refine ⟨call, List.mem_iff_getElem?.mpr ⟨later - (number + 1), ?_⟩, hid⟩
    rw [List.getElem?_drop, ← hcall]
    congr 1
    omega

theorem superseded_append {calls : List DeliverCall} (h : number < calls.length) (claimed : List DeliverCall) :
    Superseded (calls ++ claimed) number id ↔ Superseded calls number id ∨ ∃ call ∈ claimed, call.job.id = id := by
  rw [Superseded, List.drop_append_of_le_length h]
  simp only [List.mem_append, or_and_right, exists_or, Superseded]

theorem waiting_leave {calls : List DeliverCall} {n : ℕ} {job : RetryJob}
    (h : (calls.modify number DeliverCall.leave)[n]? = some ⟨job, true⟩) :
    n ≠ number ∧ calls[n]? = some ⟨job, true⟩ := by
  rw [List.getElem?_modify] at h
  cases hcall : calls[n]? with
  | none =>
    rw [hcall] at h
    cases h
  | some call =>
    rw [hcall, Option.map_eq_map, Option.map_some, Option.some_inj] at h
    split_ifs at h with heq
    · have hwaiting := congrArg DeliverCall.waiting h
      cases hwaiting
    · exact ⟨fun hn => heq hn.symm, by rw [h]⟩

theorem superseded_leave (calls : List DeliverCall) (left number : ℕ) (id : String) :
    Superseded (calls.modify left DeliverCall.leave) number id ↔ Superseded calls number id := by
  have hids : (calls.modify left DeliverCall.leave).map (·.job.id) = calls.map (·.job.id) := by
    cases h : calls[left]? with
    | none => rw [List.modify_eq_self (List.getElem?_eq_none_iff.mp h)]
    | some call =>
      obtain ⟨hcalls, hleave⟩ := split_calls h
      rw [hleave]
      conv_rhs => rw [hcalls]
      simp only [List.map_append, List.map_cons, DeliverCall.leave]
  have hmem : ∀ calls : List DeliverCall, Superseded calls number id ↔
      id ∈ (calls.map (·.job.id)).drop (number + 1) := by
    intro calls
    rw [← List.map_drop, List.mem_map]
    rfl
  rw [hmem, hmem, hids]

theorem superseded_of_ne {calls : List DeliverCall} {n : ℕ} {call other : DeliverCall}
    (hcall : calls[number]? = some call) (hother : calls[n]? = some other) (hid : other.job.id = call.job.id)
    (hne : n ≠ number) (hlatest : ¬Superseded calls number call.job.id) : Superseded calls n other.job.id := by
  rw [superseded_iff] at hlatest ⊢
  obtain hlt | hgt := Nat.lt_or_gt_of_ne hne
  · exact ⟨number, call, hlt, hcall, hid.symm⟩
  · exact absurd ⟨n, other, hgt, hother, hid⟩ hlatest

theorem not_superseded_claim {calls : List DeliverCall} {claimed : List RetryJob} {job : RetryJob}
    (unique : UniqueKeys RetryJob.id claimed) (hle : calls.length ≤ number)
    (h : (calls ++ claimed.map fun job => ⟨job, true⟩)[number]? = some ⟨job, true⟩) :
    ¬Superseded (calls ++ claimed.map fun job => ⟨job, true⟩) number job.id := by
  have hids : ∀ (n : ℕ) (call : DeliverCall), (claimed.map fun job => DeliverCall.mk job true)[n]? = some call →
      (claimed.map RetryJob.id)[n]? = some call.job.id := by
    intro n call hcall
    rw [List.getElem?_map] at hcall ⊢
    obtain ⟨source, hsource, rfl⟩ := Option.map_eq_some_iff.mp hcall
    rw [hsource]
    rfl
  rw [superseded_iff]
  rintro ⟨later, call, hlt, hlater, hid⟩
  rw [List.getElem?_append_right hle] at h
  rw [List.getElem?_append_right (hle.trans hlt.le)] at hlater
  have hfirst := hids _ _ h
  have hsecond := hids _ _ hlater
  rw [hid] at hsecond
  have hsame := (List.getElem?_inj (List.getElem?_eq_some_iff.mp hfirst).1 unique).mp (hfirst.trans hsecond.symm)
  omega

theorem Fenced.schedule (fenced : Fenced s) (input : ScheduleRetryInput) (nowMs : ℤ) (random : ℚ)
    (idle : ScheduledIdle s (.schedule input nowMs random)) :
    Fenced (step urlHost options s (.schedule input nowMs random)) := by
  simp only [step]
  obtain ⟨-, -, -, -, heq⟩ | ⟨new, hnew, -, heq⟩ := schedule_cases urlHost options s.jobs input nowMs random
  · rw [heq]
    exact fenced
  · rw [heq]
    have hold : ∀ (number : ℕ) (job : RetryJob), s.calls[number]? = some ⟨job, true⟩ → ∀ current ∈ put RetryJob.id new s.jobs,
        current.id = job.id → current ∈ s.jobs := by
      intro number job hcall current hcurrent hid
      obtain ⟨hmem, -⟩ | rfl := mem_put.mp hcurrent
      · exact hmem
      · exact absurd (hid.symm.trans hnew.id) (idle _ (List.mem_of_getElem? hcall) rfl)
    refine ⟨fenced.unique.put new, ?_, ?_⟩
    · intro number job hcall hsuperseded current hcurrent hid
      exact fenced.behind number job hcall hsuperseded current (hold number job hcall current hcurrent hid) hid
    · intro number job hcall hlatest current hcurrent hid
      exact fenced.current number job hcall hlatest current (hold number job hcall current hcurrent hid) hid

theorem Fenced.le (fenced : Fenced s) {job : RetryJob} (hcall : s.calls[number]? = some ⟨job, true⟩) {current : RetryJob}
    (hcurrent : current ∈ s.jobs) (hid : current.id = job.id) : job.attempt ≤ current.attempt := by
  by_cases h : Superseded s.calls number job.id
  · exact (fenced.behind number job hcall h current hcurrent hid).le
  · rw [fenced.current number job hcall h current hcurrent hid]

theorem Fenced.runTick (fenced : Fenced s) (nowMs : ℤ) : Fenced (step urlHost options s (.runTick nowMs)) := by
  obtain ⟨picked, hsub, -, hclaimed, hjobs, -⟩ := runTick_spec options s.jobs nowMs
  have hpicked := fenced.unique.subperm hsub
  have hunique := unique_runTick options nowMs fenced.unique
  have hcurrent : ∀ current ∈ (WebhookRetryQueue.runTick options s.jobs nowMs).1,
      (current ∈ s.jobs ∧ current.id ∉ picked.map RetryJob.id) ∨ ∃ job ∈ picked, current = claim options nowMs job := by
    intro current h
    rw [hjobs] at h
    obtain h | h := List.mem_append.mp h
    · rw [List.mem_filter, decide_eq_true_iff] at h
      exact Or.inl h
    · obtain ⟨job, hjob, rfl⟩ := List.mem_map.mp h
      exact Or.inr ⟨job, hjob, rfl⟩
  have hcall : ∀ (number : ℕ) (job : RetryJob),
      (s.calls ++ (picked.map (claim options nowMs)).map fun job => ⟨job, true⟩)[number]? = some ⟨job, true⟩ →
        (number < s.calls.length ∧ s.calls[number]? = some ⟨job, true⟩) ∨
          s.calls.length ≤ number ∧ ∃ source ∈ picked, job = claim options nowMs source := by
    intro number job h
    rw [List.getElem?_append] at h
    split_ifs at h with hlt
    · exact Or.inl ⟨hlt, h⟩
    · obtain ⟨source, hsource, heq⟩ := List.mem_map.mp (List.mem_of_getElem? h)
      obtain ⟨origin, horigin, rfl⟩ := List.mem_map.mp hsource
      exact Or.inr ⟨Nat.le_of_not_lt hlt, origin, horigin, (congrArg DeliverCall.job heq).symm⟩
  have hagain : ∀ id, (∃ call ∈ (picked.map (claim options nowMs)).map fun job => DeliverCall.mk job true,
      call.job.id = id) ↔ id ∈ picked.map RetryJob.id := by
    intro id
    simp only [List.map_map, List.mem_map, Function.comp_apply, exists_exists_and_eq_and]
    rfl
  simp only [step, hclaimed]
  refine ⟨hunique, ?_, ?_⟩
  · intro number job h hsuperseded current hmem hid
    obtain ⟨hlt, hold⟩ | ⟨hle, -⟩ := hcall number job h
    · rw [superseded_append hlt, hagain] at hsuperseded
      obtain ⟨hkept, hnot⟩ | ⟨claimed, hclaim, rfl⟩ := hcurrent current hmem
      · rw [← hid] at hsuperseded
        obtain hsuperseded | hmem := hsuperseded
        · exact fenced.behind number job hold (hid ▸ hsuperseded) current hkept hid
        · exact absurd hmem hnot
      · exact Nat.lt_succ_of_le (fenced.le hold (hsub.subset hclaim) hid)
    · exact absurd hsuperseded (not_superseded_claim (unique_claims hpicked) hle h)
  · intro number job h hlatest current hmem hid
    obtain ⟨hlt, hold⟩ | ⟨-, source, hsource, rfl⟩ := hcall number job h
    · rw [superseded_append hlt, hagain, not_or] at hlatest
      obtain ⟨hkept, -⟩ | ⟨claimed, hclaim, rfl⟩ := hcurrent current hmem
      · exact fenced.current number job hold hlatest.1 current hkept hid
      · exact absurd (List.mem_map.mpr ⟨claimed, hclaim, hid⟩) hlatest.2
    · obtain ⟨-, hnot⟩ | ⟨claimed, hclaim, rfl⟩ := hcurrent current hmem
      · exact absurd (List.mem_map.mpr ⟨source, hsource, hid.symm⟩) hnot
      · rw [hpicked.eq hclaim hsource hid]

theorem fenced_settled {jobs : List RetryJob} {outcomes : List RetryTickOutcome}
    {deadLetters : List DlqEntry} (unique : UniqueKeys RetryJob.id jobs)
    (behind : ∀ n job, n ≠ number → s.calls[n]? = some ⟨job, true⟩ → Superseded s.calls n job.id →
      ∀ current ∈ jobs, current.id = job.id → job.attempt < current.attempt)
    (current : ∀ n job, n ≠ number → s.calls[n]? = some ⟨job, true⟩ → ¬Superseded s.calls n job.id →
      ∀ current ∈ jobs, current.id = job.id → current = job) :
    Fenced ⟨jobs, s.calls.modify number DeliverCall.leave, outcomes, deadLetters⟩ := by
  refine ⟨unique, ?_, ?_⟩
  · intro n job hcall hsuperseded
    obtain ⟨hne, hold⟩ := waiting_leave hcall
    exact behind n job hne hold ((superseded_leave _ _ _ _).mp hsuperseded)
  · intro n job hcall hlatest
    obtain ⟨hne, hold⟩ := waiting_leave hcall
    exact current n job hne hold fun h => hlatest ((superseded_leave _ _ _ _).mpr h)

theorem Fenced.crash (fenced : Fenced s) (number : ℕ) : Fenced (step urlHost options s (.crash number)) :=
  fenced_settled fenced.unique (fun n job _ => fenced.behind n job) fun n job _ => fenced.current n job

theorem Fenced.removed (fenced : Fenced s) (number : ℕ) (id : String) (outcomes : List RetryTickOutcome)
    (deadLetters : List DlqEntry) :
    Fenced ⟨remove RetryJob.id id s.jobs, s.calls.modify number DeliverCall.leave, outcomes, deadLetters⟩ := by
  apply fenced_settled (fenced.unique.remove id)
  · intro n job _ hcall hsuperseded current hcurrent
    exact fenced.behind n job hcall hsuperseded current (mem_remove.mp hcurrent).1
  · intro n job _ hcall hlatest current hcurrent
    exact fenced.current n job hcall hlatest current (mem_remove.mp hcurrent).1

theorem Fenced.renewed (fenced : Fenced s) {job updated : RetryJob} (hcall : s.calls[number]? = some ⟨job, true⟩)
    (h : Renewed job updated)
    (only : Superseded s.calls number job.id → ∀ current ∈ s.jobs, current.id ≠ job.id)
    (outcomes : List RetryTickOutcome) (deadLetters : List DlqEntry) :
    Fenced ⟨replace RetryJob.id updated s.jobs, s.calls.modify number DeliverCall.leave, outcomes, deadLetters⟩ := by
  apply fenced_settled (fenced.unique.replace updated)
  · intro n other hne hother hsuperseded current hcurrent hid
    obtain ⟨hold, -⟩ | ⟨rfl, source, hsource, hsid⟩ := mem_replace.mp hcurrent
    · exact fenced.behind n other hother hsuperseded current hold hid
    · rw [h.attempt]
      rw [h.id] at hid hsid
      by_cases hlate : Superseded s.calls number job.id
      · exact absurd hsid (only hlate source hsource)
      · have hjob := fenced.current number job hcall hlate source hsource hsid
        rw [← hjob]
        exact fenced.behind n other hother hsuperseded source hsource (hsid.trans hid)
  · intro n other hne hother hlatest current hcurrent hid
    obtain ⟨hold, -⟩ | ⟨rfl, source, hsource, hsid⟩ := mem_replace.mp hcurrent
    · exact fenced.current n other hother hlatest current hold hid
    · rw [h.id] at hid hsid
      by_cases hlate : Superseded s.calls number job.id
      · exact absurd hsid (only hlate source hsource)
      · exact absurd (superseded_of_ne hcall hother hid.symm hne hlate) hlatest

theorem settle_waiting {job : RetryJob} (hcall : s.calls[number]? = some ⟨job, true⟩) (result : DeliveryResult) (now : ℤ)
    (random : ℚ) : settle options s number result now random =
      { jobs := (attempt options s.jobs job result now random).1
        calls := s.calls.modify number DeliverCall.leave
        outcomes := s.outcomes ++ [(attempt options s.jobs job result now random).2.1]
        deadLetters := s.deadLetters ++ (attempt options s.jobs job result now random).2.2.toList } := by
  simp only [settle, hcall]

theorem settle_not_waiting (h : ∀ job, s.calls[number]? ≠ some ⟨job, true⟩) (result : DeliveryResult) (now : ℤ)
    (random : ℚ) : settle options s number result now random = s := by
  unfold settle
  split
  · rename_i job hcall
    exact absurd hcall (h job)
  · rfl

theorem Fenced.step (fenced : Fenced s) (event : Event) (idle : ScheduledIdle s event) (only : OnlyCurrent s event) :
    Fenced (step urlHost options s event) := by
  cases event with
  | schedule input nowMs random => exact fenced.schedule input nowMs random idle
  | runTick nowMs => exact fenced.runTick nowMs
  | crash number => exact fenced.crash number
  | settle number result now random =>
    simp only [WebhookRetryQueue.step]
    by_cases h : ∃ job, s.calls[number]? = some ⟨job, true⟩
    · obtain ⟨job, hcall⟩ := h
      rw [settle_waiting hcall]
      obtain ⟨outcome, -, -, heq⟩ | ⟨updated, outcome, hrenewed, -, -, heq⟩ | ⟨outcome, entry, -, -, -, heq⟩ :=
        attempt_cases options s.jobs job result now random
      · rw [heq]
        exact fenced.removed number job.id _ _
      · rw [heq]
        exact fenced.renewed hcall hrenewed (only job hcall) _ _
      · rw [heq]
        exact fenced.removed number job.id _ _
    · rw [settle_not_waiting fun job hcall => h ⟨job, hcall⟩]
      exact fenced

theorem Fenced.keepsCount (fenced : Fenced s) (event : Event) (only : OnlyCurrent s event) :
    KeepsCount urlHost options s event := by
  have hsame : ∀ job ∈ s.jobs, ∀ later ∈ s.jobs, later.id = job.id → job.attempt ≤ later.attempt := by
    intro job hjob later hlater hid
    rw [fenced.unique.eq hlater hjob hid]
  intro job hjob hnot later hlater hid
  cases event with
  | crash number => exact hsame job hjob later hlater hid
  | schedule input nowMs random =>
    simp only [WebhookRetryQueue.step] at hlater
    obtain ⟨-, -, -, -, heq⟩ | ⟨new, hnew, -, heq⟩ := schedule_cases urlHost options s.jobs input nowMs random
    · rw [heq] at hlater
      exact hsame job hjob later hlater hid
    · rw [heq, mem_put] at hlater
      obtain ⟨hlater, -⟩ | rfl := hlater
      · exact hsame job hjob later hlater hid
      · exact absurd (hnew.id.symm.trans hid) hnot
  | runTick nowMs =>
    obtain ⟨picked, hsub, -, -, hjobs, -⟩ := runTick_spec options s.jobs nowMs
    simp only [WebhookRetryQueue.step, hjobs, List.mem_append] at hlater
    obtain hlater | hlater := hlater
    · exact hsame job hjob later (List.mem_filter.mp hlater).1 hid
    · obtain ⟨source, hsource, rfl⟩ := List.mem_map.mp hlater
      exact Nat.le_succ_of_le (hsame job hjob source (hsub.subset hsource) hid)
  | settle number result now random =>
    simp only [WebhookRetryQueue.step] at hlater
    by_cases h : ∃ claimed, s.calls[number]? = some ⟨claimed, true⟩
    · obtain ⟨claimed, hcall⟩ := h
      rw [settle_waiting hcall] at hlater
      obtain ⟨outcome, -, -, heq⟩ | ⟨updated, outcome, hrenewed, -, -, heq⟩ | ⟨outcome, entry, -, -, -, heq⟩ :=
        attempt_cases options s.jobs claimed result now random
      · rw [heq] at hlater
        exact hsame job hjob later (mem_remove.mp hlater).1 hid
      · rw [heq] at hlater
        obtain ⟨hlater, -⟩ | ⟨rfl, -⟩ := mem_replace.mp hlater
        · exact hsame job hjob later hlater hid
        · have hclaimed : job.id = claimed.id := hid.symm.trans hrenewed.id
          by_cases hlate : Superseded s.calls number claimed.id
          · exact absurd hclaimed (only claimed hcall hlate job hjob)
          · rw [hrenewed.attempt, fenced.current number claimed hcall hlate job hjob hclaimed]
      · rw [heq] at hlater
        exact hsame job hjob later (mem_remove.mp hlater).1 hid
    · rw [settle_not_waiting fun job hcall => h ⟨job, hcall⟩] at hlater
      exact hsame job hjob later hlater hid

theorem fencesLate_of_onlyCurrent (event : Event) (only : OnlyCurrent s event) : FencesLate options s event := by
  cases event with
  | schedule | runTick | crash => exact trivial
  | settle number result now random =>
    intro job hcall hlate
    have hgone : get RetryJob.id job.id s.jobs = none := get_eq_none.mpr (only job hcall hlate)
    rw [settle_waiting hcall, hgone]
    obtain ⟨outcome, -, -, heq⟩ | ⟨updated, outcome, hrenewed, -, -, heq⟩ | ⟨outcome, entry, -, -, -, heq⟩ :=
      attempt_cases options s.jobs job result now random
    · simp only [heq, get_remove, ↓reduceIte]
    · simp only [heq, get_replace, hrenewed.id, ↓reduceIte, hgone, Option.map_none]
    · simp only [heq, get_remove, ↓reduceIte]

theorem Fenced.onlyCurrent (fenced : Fenced s) (event : Event) (fences : FencesLate options s event)
    (keeps : KeepsCount urlHost options s event) : OnlyCurrent s event := by
  cases event with
  | schedule | runTick | crash => exact trivial
  | settle number result now random =>
    intro job hcall hlate current hcurrent hid
    have htiming := fences job hcall hlate
    have hget := fenced.unique.get_eq hcurrent
    rw [hid] at hget
    rw [settle_waiting hcall, hget] at htiming
    obtain ⟨outcome, -, -, heq⟩ | ⟨updated, outcome, hrenewed, -, -, heq⟩ | ⟨outcome, entry, -, -, -, heq⟩ :=
      attempt_cases options s.jobs job result now random
    · simp only [heq, get_remove, ↓reduceIte, Option.map_none, Option.map_some, reduceCtorEq] at htiming
    · have hupdated : updated ∈ (WebhookRetryQueue.step urlHost options s (.settle number result now random)).jobs := by
        simp only [WebhookRetryQueue.step, settle_waiting hcall, heq]
        exact mem_replace.mpr (Or.inr ⟨rfl, current, hcurrent, hid.trans hrenewed.id.symm⟩)
      have hle := keeps current hcurrent id updated hupdated (hrenewed.id.trans hid.symm)
      have hlt := fenced.behind number job hcall hlate current hcurrent hid
      rw [hrenewed.attempt] at hle
      omega
    · simp only [heq, get_remove, ↓reduceIte, Option.map_none, Option.map_some, reduceCtorEq] at htiming

theorem late_completions_fenced_iff (events : List Event)
    (idle : EachStep (step urlHost options) ScheduledIdle {} events) :
    EachStep (step urlHost options) (fun s event => FencesLate options s event ∧ KeepsCount urlHost options s event)
        {} events ↔
      EachStep (step urlHost options) OnlyCurrent {} events := by
  have hiff := @eachStep_iff _ _ (step urlHost options) Fenced
    (fun s event => ScheduledIdle s event ∧ FencesLate options s event ∧ KeepsCount urlHost options s event)
    (fun s event => ScheduledIdle s event ∧ OnlyCurrent s event) ?_ ?_ {} ⟨List.nodup_nil, nofun, nofun⟩ events
  · constructor
    · intro h
      exact ((eachStep_and _ _).mp (hiff.mp ((eachStep_and _ _).mpr ⟨idle, h⟩))).2
    · intro h
      exact ((eachStep_and _ _).mp (hiff.mpr ((eachStep_and _ _).mpr ⟨idle, h⟩))).2
  · rintro s event fenced ⟨hidle, hfences, hkeeps⟩
    exact fenced.step event hidle (fenced.onlyCurrent event hfences hkeeps)
  · intro s event fenced
    apply and_congr_right
    intro _
    constructor
    · rintro ⟨hfences, hkeeps⟩
      exact fenced.onlyCurrent event hfences hkeeps
    · intro honly
      exact ⟨fencesLate_of_onlyCurrent event honly, fenced.keepsCount event honly⟩

section Sample

instance (s : State) (event : Event) : Decidable (ScheduledIdle s event) :=
  match event with
  | .schedule input _ _ =>
    inferInstanceAs (Decidable (∀ call ∈ s.calls, call.waiting = true → call.job.id ≠ input.request.id))
  | .runTick _ | .settle .. | .crash _ => isTrue trivial

def sampleOverlap : List Event :=
  [.schedule (sampleInput "a" 1) 0 0, .runTick 0, .runTick 60000, .settle 0 ⟨false, some 503, none⟩ 60010 0]

theorem sample_fenced_iff :
    EachStep (step sampleHost {}) (fun s event => FencesLate {} s event ∧ KeepsCount sampleHost {} s event)
        {} sampleOverlap ↔
      EachStep (step sampleHost {}) OnlyCurrent {} sampleOverlap :=
  late_completions_fenced_iff sampleOverlap (by decide +kernel)

theorem late_completion_lowers_counter : ¬∀ events, EachStep (step sampleHost {}) ScheduledIdle {} events →
    EachStep (step sampleHost {}) (KeepsCount sampleHost {}) {} events := by
  intro h
  have hkeeps := h sampleOverlap (by decide +kernel)
  obtain ⟨-, -, -, hlast, -⟩ := hkeeps
  have hcounters : ¬∀ job ∈ (run (step sampleHost {}) {} (sampleOverlap.take 3)).jobs,
      ∀ later ∈ (run (step sampleHost {}) {} sampleOverlap).jobs, later.id = job.id → job.attempt ≤ later.attempt := by
    decide +kernel
  exact hcounters fun job hjob => hlast job hjob id

end Sample

end CrashLab.WebhookRetryQueue
