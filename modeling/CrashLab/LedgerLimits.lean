import CrashLab.UsageLedger

namespace CrashLab.UsageLedger

open Capacity CampaignQuotas KeyedLists Histories

variable {κ : Type}

section Sums

theorem sum_map_filter {α : Type} (p : α → Bool) (f : α → ℕ) (l : List α) :
    ((l.filter p).map f).sum = (l.map fun a => if p a then f a else 0).sum := by
  induction l with
  | nil => rfl
  | cons a l ih =>
    rw [List.filter_cons, List.map_cons, List.sum_cons, ← ih]
    split_ifs <;> simp

theorem sum_map_le {α : Type} {f f' : α → ℕ} {l : List α} (h : ∀ a ∈ l, f' a ≤ f a) :
    (l.map f').sum ≤ (l.map f).sum := List.sum_le_sum h

theorem sum_filter_le {α : Type} (p : α → Bool) (f : α → ℕ) (l : List α) :
    ((l.filter p).map f).sum ≤ (l.map f).sum := by
  rw [sum_map_filter]
  apply sum_map_le
  intro a _
  split_ifs
  · exact le_rfl
  · exact Nat.zero_le _

def heldWorkers (scope : String) (at_ : ℕ) (lease : CampaignLease κ) : ℕ :=
  if lease.scope = scope ∧ lease.isActive at_ = true then lease.workers else 0

def heldSeeds (scope : String) (at_ : ℕ) (lease : CampaignLease κ) : ℕ :=
  if lease.scope = scope ∧ lease.day = utcDay at_ then lease.chargedSeeds at_ else 0

theorem activeWorkers_eq (ledger : CapacityLedger κ) (at_ : ℕ) (scope : String) :
    (ledger.usage at_ scope).activeWorkers = (ledger.leases.map (heldWorkers scope at_)).sum := by
  simp only [CapacityLedger.usage, List.filter_filter, sum_map_filter, Bool.and_eq_true, decide_eq_true_eq, and_comm]
  rfl

theorem seedsToday_eq (ledger : CapacityLedger κ) (at_ : ℕ) (scope : String) :
    (ledger.usage at_ scope).seedsToday = (ledger.leases.map (heldSeeds scope at_)).sum := by
  simp only [CapacityLedger.usage, List.filter_filter, sum_map_filter, Bool.and_eq_true, decide_eq_true_eq, and_comm]
  rfl

end Sums

section Leases

def Sound (now : ℕ) (lease : CampaignLease κ) : Prop :=
  lease.seedsUsed ≤ lease.seedsReserved ∧ lease.day ≤ utcDay now

theorem chargedSeeds_of_sound {now at_ : ℕ} {lease : CampaignLease κ} (h : Sound now lease) :
    lease.chargedSeeds at_ = if lease.isActive at_ = true then lease.seedsReserved else lease.seedsUsed := by
  unfold CampaignLease.chargedSeeds
  split_ifs
  · exact max_eq_left h.1
  · rfl

theorem isActive_earlier {lease : CampaignLease κ} {now later : ℕ} (hle : now ≤ later)
    (h : lease.isActive later = true) : lease.isActive now = true := by
  simp only [CampaignLease.isActive, Bool.and_eq_true, decide_eq_true_eq] at h ⊢
  exact ⟨h.1, by omega⟩

theorem heldWorkers_later (scope : String) {lease : CampaignLease κ} {now later : ℕ} (hle : now ≤ later) :
    heldWorkers scope later lease ≤ heldWorkers scope now lease := by
  unfold heldWorkers
  by_cases hlater : lease.scope = scope ∧ lease.isActive later = true
  · rw [if_pos hlater, if_pos ⟨hlater.1, isActive_earlier hle hlater.2⟩]
  · rw [if_neg hlater]
    exact Nat.zero_le _

theorem chargedSeeds_later {lease : CampaignLease κ} {now later : ℕ} (h : Sound now lease) (hle : now ≤ later) :
    lease.chargedSeeds later ≤ lease.chargedSeeds now := by
  have hused := h.1
  rw [chargedSeeds_of_sound h, chargedSeeds_of_sound h]
  by_cases hlater : lease.isActive later = true
  · rw [if_pos hlater, if_pos (isActive_earlier hle hlater)]
  · rw [if_neg hlater]
    split_ifs
    · exact hused
    · exact le_rfl

theorem heldSeeds_later (scope : String) {lease : CampaignLease κ} {now later : ℕ} (h : Sound now lease)
    (hle : now ≤ later) : heldSeeds scope later lease ≤ heldSeeds scope now lease := by
  have hdays : utcDay now ≤ utcDay later := Nat.div_le_div_right hle
  unfold heldSeeds
  by_cases hlater : lease.scope = scope ∧ lease.day = utcDay later
  · have hday : lease.day = utcDay now := le_antisymm h.2 (by omega)
    rw [if_pos hlater, if_pos ⟨hlater.1, hday⟩]
    exact chargedSeeds_later h hle
  · rw [if_neg hlater]
    exact Nat.zero_le _

theorem heldWorkers_leaseFor (scope : String) (at_ : ℕ) (input : AdmitInput κ) :
    heldWorkers scope at_ (CapacityLedger.leaseFor at_ input) ≤ if input.scope = scope then input.workers else 0 := by
  unfold heldWorkers
  split_ifs with h hscope
  · exact le_rfl
  · exact absurd h.1 hscope
  · exact Nat.zero_le _
  · exact le_rfl

theorem heldSeeds_leaseFor (scope : String) (at_ : ℕ) (input : AdmitInput κ) :
    heldSeeds scope at_ (CapacityLedger.leaseFor at_ input) ≤ if input.scope = scope then input.seeds else 0 := by
  have hcharged : (CapacityLedger.leaseFor at_ input).chargedSeeds at_ ≤ input.seeds := by
    unfold CampaignLease.chargedSeeds
    split_ifs
    · exact (max_eq_left (Nat.zero_le _)).le
    · exact Nat.zero_le _
  unfold heldSeeds
  split_ifs with h hscope
  · exact hcharged
  · exact absurd h.1 hscope
  · exact Nat.zero_le _
  · exact le_rfl

theorem isActive_reported {lease : CampaignLease κ} {at_ : ℕ} {report : UsageReport}
    (h : lease.isActive at_ = true ∨ lease.finishedAt.isSome = true ∨ report.status = .finished)
    (hactive : (lease.reported at_ report).isActive at_ = true) : lease.isActive at_ = true := by
  rcases h with h | h | h
  · exact h
  · cases hfinished : lease.finishedAt with
    | none => simp [hfinished] at h
    | some t => simp [CampaignLease.reported, CampaignLease.isActive, hfinished] at hactive
  · cases hfinished : lease.finishedAt with
    | none => simp [CampaignLease.reported, CampaignLease.isActive, hfinished, h] at hactive
    | some t => simp [CampaignLease.reported, CampaignLease.isActive, hfinished] at hactive

theorem reported_spec (lease : CampaignLease κ) (at_ : ℕ) (report : UsageReport) :
    (lease.reported at_ report).campaignId = lease.campaignId ∧ (lease.reported at_ report).scope = lease.scope ∧
      (lease.reported at_ report).workers = lease.workers ∧ (lease.reported at_ report).day = lease.day ∧
      (lease.reported at_ report).seedsReserved = lease.seedsReserved ∧
      (lease.reported at_ report).seedsUsed = max lease.seedsUsed report.seedsProcessed := by
  unfold CampaignLease.reported
  dsimp only
  split <;> simp

theorem heldWorkers_reported (scope : String) {lease : CampaignLease κ} {at_ : ℕ} {report : UsageReport}
    (h : lease.isActive at_ = true ∨ lease.finishedAt.isSome = true ∨ report.status = .finished) :
    heldWorkers scope at_ (lease.reported at_ report) ≤ heldWorkers scope at_ lease := by
  obtain ⟨-, hscope, hworkers, -⟩ := reported_spec lease at_ report
  unfold heldWorkers
  rw [hscope, hworkers]
  by_cases hactive : lease.scope = scope ∧ (lease.reported at_ report).isActive at_ = true
  · rw [if_pos hactive, if_pos ⟨hactive.1, isActive_reported h hactive.2⟩]
  · rw [if_neg hactive]
    exact Nat.zero_le _

theorem heldSeeds_reported (scope : String) {lease : CampaignLease κ} {at_ : ℕ} {report : UsageReport}
    (hsound : Sound at_ lease) (hwithin : report.seedsProcessed ≤ lease.seedsReserved)
    (h : lease.isActive at_ = true ∨ (lease.finishedAt.isSome = true ∨ report.status = .finished) ∧
      (lease.day = utcDay at_ → report.seedsProcessed ≤ lease.seedsUsed)) :
    heldSeeds scope at_ (lease.reported at_ report) ≤ heldSeeds scope at_ lease := by
  obtain ⟨-, hscope, -, hday, hreserved, hused⟩ := reported_spec lease at_ report
  have hactive := @isActive_reported _ lease at_ report (h.imp id And.left)
  have hbound := hsound.1
  unfold heldSeeds CampaignLease.chargedSeeds
  rw [hscope, hday, hreserved, hused]
  by_cases hin : lease.scope = scope ∧ lease.day = utcDay at_
  · rw [if_pos hin, if_pos hin]
    by_cases hnow : lease.isActive at_ = true
    · rw [if_pos hnow]
      split_ifs <;> omega
    · have hsame := (h.resolve_left hnow).2 hin.2
      rw [if_neg hnow, if_neg fun hlater => hnow (hactive hlater)]
      omega
  · rw [if_neg hin]
    exact Nat.zero_le _

theorem Sound.reported {lease : CampaignLease κ} {at_ : ℕ} {report : UsageReport} (h : Sound at_ lease)
    (hwithin : report.seedsProcessed ≤ lease.seedsReserved) : Sound at_ (lease.reported at_ report) := by
  obtain ⟨-, -, -, hday, hreserved, hused⟩ := reported_spec lease at_ report
  rw [Sound, hday, hreserved, hused]
  exact ⟨max_le h.1 hwithin, h.2⟩

end Leases

inductive LedgerEvent (κ : Type) where
  | advance (ms : ℕ)
  | admitLease (input : AdmitInput κ)
  | report (campaignId : κ) (report : UsageReport)

structure LedgerState (κ : Type) where
  now : ℕ
  ledger : CapacityLedger κ := {}

namespace LedgerState

variable [DecidableEq κ]

def step (s : LedgerState κ) : LedgerEvent κ → LedgerState κ
  | .advance ms => { s with now := s.now + ms }
  | .admitLease input => { s with ledger := s.ledger.admitLease s.now input }
  | .report campaignId report => { s with ledger := (s.ledger.report s.now campaignId report).2 }

/-- Admissions are of fresh ids the quotas let in, and no report exceeds what its campaign reserved. -/
def Allowed (limits : QuotaLimits) (s : LedgerState κ) : LedgerEvent κ → Prop
  | .advance _ => True
  | .admitLease input =>
    (∀ lease ∈ s.ledger.leases, lease.campaignId ≠ input.campaignId) ∧
      checkAdmission limits (s.ledger.usage s.now input.scope) input.toResourceRequest s.now = .ok
  | .report campaignId report =>
    ∀ lease ∈ s.ledger.leases, lease.campaignId = campaignId →
      report.seedsProcessed ≤ lease.seedsReserved ∧ report.rpcCalls.getD 0 ≤ lease.rpcCallsReserved

/-- A report finds its lease active, or neither renews it nor adds seeds to the current day. -/
def Timely (s : LedgerState κ) : LedgerEvent κ → Prop
  | .report campaignId report =>
    ∀ lease ∈ s.ledger.leases, lease.campaignId = campaignId → lease.isActive s.now = true ∨
      (lease.finishedAt.isSome ∨ report.status = .finished) ∧
        (lease.day = utcDay s.now → report.seedsProcessed ≤ lease.seedsUsed)
  | _ => True

instance Allowed.decidable (limits : QuotaLimits) (s : LedgerState κ) : ∀ event, Decidable (Allowed limits s event)
  | .advance _ => isTrue trivial
  | .admitLease _ => inferInstanceAs (Decidable (_ ∧ _))
  | .report _ _ => inferInstanceAs (Decidable (∀ lease ∈ s.ledger.leases, _))

instance Timely.decidable (s : LedgerState κ) : ∀ event, Decidable (Timely s event)
  | .advance _ => isTrue trivial
  | .admitLease _ => isTrue trivial
  | .report _ _ => inferInstanceAs (Decidable (∀ lease ∈ s.ledger.leases, _))

def WithinLimits (limits : QuotaLimits) (s : LedgerState κ) : Prop :=
  ∀ scope,
    (∀ limit, limits.concurrentWorkers = some limit → (s.ledger.usage s.now scope).activeWorkers ≤ limit) ∧
      ∀ limit, limits.seedsPerDay = some limit → (s.ledger.usage s.now scope).seedsToday ≤ limit

structure Invariant (limits : QuotaLimits) (s : LedgerState κ) : Prop where
  unique : UniqueKeys CampaignLease.campaignId s.ledger.leases
  sound : ∀ lease ∈ s.ledger.leases, Sound s.now lease
  within : WithinLimits limits s

omit [DecidableEq κ] in
theorem WithinLimits.mono {limits : QuotaLimits} {s s' : LedgerState κ} (h : WithinLimits limits s)
    (hworkers : ∀ scope, (s'.ledger.leases.map (heldWorkers scope s'.now)).sum ≤
      (s.ledger.leases.map (heldWorkers scope s.now)).sum)
    (hseeds : ∀ scope, (s'.ledger.leases.map (heldSeeds scope s'.now)).sum ≤
      (s.ledger.leases.map (heldSeeds scope s.now)).sum) : WithinLimits limits s' := by
  intro scope
  rw [activeWorkers_eq, seedsToday_eq]
  have hscope := h scope
  rw [activeWorkers_eq, seedsToday_eq] at hscope
  exact ⟨fun limit hlimit => (hworkers scope).trans (hscope.1 limit hlimit),
    fun limit hlimit => (hseeds scope).trans (hscope.2 limit hlimit)⟩

theorem Invariant.advance {limits : QuotaLimits} {s : LedgerState κ} (h : Invariant limits s) (ms : ℕ) :
    Invariant limits (s.step (.advance ms)) := by
  have hle : s.now ≤ s.now + ms := Nat.le_add_right _ _
  have hday : utcDay s.now ≤ utcDay (s.now + ms) := Nat.div_le_div_right hle
  refine ⟨h.unique, fun lease hlease => ⟨(h.sound lease hlease).1, (h.sound lease hlease).2.trans hday⟩,
    h.within.mono ?_ ?_⟩
  · intro scope
    exact sum_map_le fun lease _ => heldWorkers_later scope hle
  · intro scope
    exact sum_map_le fun lease hlease => heldSeeds_later scope (h.sound lease hlease) hle

theorem setLease_of_fresh {leases : List (CampaignLease κ)} {lease : CampaignLease κ}
    (h : ∀ other ∈ leases, other.campaignId ≠ lease.campaignId) :
    CapacityLedger.setLease leases lease = leases ++ [lease] := by
  rw [CapacityLedger.setLease, if_neg]
  simpa using h

theorem Invariant.admitLease {limits : QuotaLimits} {s : LedgerState κ} (h : Invariant limits s) {input : AdmitInput κ}
    (hallowed : Allowed limits s (.admitLease input)) : Invariant limits (s.step (.admitLease input)) := by
  obtain ⟨hfresh, hok⟩ := hallowed
  obtain ⟨hworkers, hseeds⟩ := checkAdmission_ok hok
  have hkept : ∀ other ∈ (s.ledger.prune s.now).leases, other ∈ s.ledger.leases := fun other hother =>
    List.mem_of_mem_filter hother
  have hleases : (s.step (.admitLease input)).ledger.leases =
      (s.ledger.prune s.now).leases ++ [CapacityLedger.leaseFor s.now input] :=
    setLease_of_fresh fun other hother => hfresh other (hkept other hother)
  refine ⟨?_, ?_, ?_⟩
  · rw [hleases]
    have hsingle : UniqueKeys CampaignLease.campaignId [CapacityLedger.leaseFor s.now input] :=
      List.nodup_singleton _
    apply (h.unique.sublist List.filter_sublist).append hsingle
    intro other hother lease hlease
    rw [List.mem_singleton.mp hlease]
    exact hfresh other (hkept other hother)
  · intro lease hlease
    rw [hleases, List.mem_append, List.mem_singleton] at hlease
    rcases hlease with hlease | rfl
    · exact h.sound lease (hkept lease hlease)
    · exact ⟨Nat.zero_le _, le_rfl⟩
  · intro scope
    have hscope := h.within scope
    rw [activeWorkers_eq, seedsToday_eq] at hscope ⊢
    rw [activeWorkers_eq] at hworkers
    rw [seedsToday_eq] at hseeds
    have hnow : (s.step (.admitLease input)).now = s.now := rfl
    rw [hleases, hnow, List.map_append, List.map_append, List.sum_append, List.sum_append, List.map_singleton,
      List.map_singleton, List.sum_singleton, List.sum_singleton]
    have hpruned := sum_filter_le (fun lease : CampaignLease κ =>
      !decide (lease.finishedAt.getD lease.expiresAt + leaseHistoryMs < s.now))
    have hnewWorkers := heldWorkers_leaseFor scope s.now input
    have hnewSeeds := heldSeeds_leaseFor scope s.now input
    have hprunedWorkers := hpruned (heldWorkers scope s.now) s.ledger.leases
    have hprunedSeeds := hpruned (heldSeeds scope s.now) s.ledger.leases
    simp only [CapacityLedger.prune]
    by_cases heq : input.scope = scope
    · subst heq
      rw [if_pos rfl] at hnewWorkers hnewSeeds
      refine ⟨fun limit hlimit => ?_, fun limit hlimit => ?_⟩
      · have := hworkers limit hlimit
        omega
      · have := hseeds limit hlimit
        omega
    · rw [if_neg heq] at hnewWorkers hnewSeeds
      refine ⟨fun limit hlimit => ?_, fun limit hlimit => ?_⟩
      · have := hscope.1 limit hlimit
        omega
      · have := hscope.2 limit hlimit
        omega

theorem Invariant.report {limits : QuotaLimits} {s : LedgerState κ} (h : Invariant limits s) {campaignId : κ}
    {report : UsageReport} (hallowed : Allowed limits s (.report campaignId report))
    (htimely : Timely s (.report campaignId report)) : Invariant limits (s.step (.report campaignId report)) := by
  cases hget : get CampaignLease.campaignId campaignId s.ledger.leases with
  | none =>
    have hsame : s.step (.report campaignId report) = s := by
      simp only [step, CapacityLedger.report, hget]
    rw [hsame]
    exact h
  | some lease =>
    obtain ⟨hmem, hid⟩ := mem_of_get hget
    have hleases : (s.step (.report campaignId report)).ledger.leases =
        replace CampaignLease.campaignId (lease.reported s.now report) s.ledger.leases := by
      simp only [step, CapacityLedger.report, hget]
    have hreported := (reported_spec lease s.now report).1
    have hwithin := (hallowed lease hmem hid).1
    have hactive := htimely lease hmem hid
    have hsound := h.sound lease hmem
    have hsame : ∀ other ∈ s.ledger.leases, other.campaignId = (lease.reported s.now report).campaignId →
        other = lease := by
      intro other hother hkey
      exact h.unique.eq hother hmem (hkey.trans hreported)
    have hle : ∀ held : CampaignLease κ → ℕ, held (lease.reported s.now report) ≤ held lease →
        ((s.step (.report campaignId report)).ledger.leases.map held).sum ≤ (s.ledger.leases.map held).sum := by
      intro held hheld
      rw [hleases, replace, List.map_map]
      apply sum_map_le
      intro other hother
      rw [Function.comp_apply]
      split_ifs with hkey
      · rw [hsame other hother hkey]
        exact hheld
      · exact le_rfl
    refine ⟨?_, ?_, h.within.mono ?_ ?_⟩
    · rw [hleases]
      exact h.unique.replace _
    · intro other hother
      rw [hleases, mem_replace] at hother
      rcases hother with ⟨hother, -⟩ | ⟨rfl, -⟩
      · exact h.sound other hother
      · exact hsound.reported hwithin
    · intro scope
      exact hle _ (heldWorkers_reported scope (hactive.imp id And.left))
    · intro scope
      exact hle _ (heldSeeds_reported scope hsound hwithin hactive)

theorem Invariant.step {limits : QuotaLimits} (s : LedgerState κ) (event : LedgerEvent κ) (h : Invariant limits s)
    (hevent : Allowed limits s event ∧ Timely s event) : Invariant limits (s.step event) := by
  cases event with
  | advance ms => exact h.advance ms
  | admitLease input => exact h.admitLease hevent.1
  | report campaignId report => exact h.report hevent.1 hevent.2

omit [DecidableEq κ] in
theorem Invariant.start (limits : QuotaLimits) (now : ℕ) : Invariant limits ({ now } : LedgerState κ) :=
  ⟨List.nodup_nil, by simp, fun scope => ⟨fun _ _ => Nat.zero_le _, fun _ _ => Nat.zero_le _⟩⟩

theorem ledger_within_limits (limits : QuotaLimits) (now : ℕ) (events : List (LedgerEvent κ))
    (hevents : EachStep LedgerState.step (fun s event => Allowed limits s event ∧ Timely s event) { now } events) :
    Always LedgerState.step (WithinLimits limits) { now } events := by
  rw [always_iff_eachStep (Invariant.start limits now).within]
  exact hevents.imp Invariant.step (fun s event h hevent => (h.step s event hevent).within) (Invariant.start limits now)

def oneWorker : QuotaLimits := { concurrentWorkers := some 1, seedsPerDay := some 2000 }

def sampleInput (campaignId : String) : AdmitInput String :=
  { campaignId, scope := defaultQuotaScope, project := "default", campaignClass := .interactive, workers := 1
    seeds := 1000, rpcCalls := 0 }

def timelyEvents : List (LedgerEvent String) :=
  [.admitLease (sampleInput "a"), .advance 3599999, .report "a" { seedsProcessed := 10, status := .running },
    .advance 3599999, .report "a" { seedsProcessed := 400, status := .finished }, .admitLease (sampleInput "b")]

theorem timelyEvents_within_limits :
    Always LedgerState.step (WithinLimits oneWorker) { now := 0 } timelyEvents :=
  ledger_within_limits oneWorker 0 timelyEvents (by decide +kernel)

/-- The lease of `a` runs out, `b` takes its worker, and then a late report of `a` takes it back. -/
def lateEvents : List (LedgerEvent String) :=
  [.admitLease (sampleInput "a"), .advance 3600000, .admitLease (sampleInput "b"),
    .report "a" { seedsProcessed := 10, status := .running }]

theorem late_report_oversubscribes :
    ¬∀ (limits : QuotaLimits) (now : ℕ) (events : List (LedgerEvent String)),
      EachStep LedgerState.step (Allowed limits) { now } events →
        Always LedgerState.step (WithinLimits limits) { now } events := by
  intro h
  have hwithin := (h oneWorker 0 lateEvents (by decide +kernel)).2.2.2.2
  have hle := (hwithin defaultQuotaScope).1 1 rfl
  exact absurd hle (by decide +kernel)

end LedgerState

end CrashLab.UsageLedger
