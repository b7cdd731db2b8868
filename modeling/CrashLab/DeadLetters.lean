import CrashLab.Histories
import CrashLab.WebhookDlq

namespace CrashLab.WebhookDlq.DeadLetterQueue

open Histories KeyedLists WebhookDelivery

/-- The same dead letter, with what replays and drains may have written to it since. -/
structure Continues (entry later : DlqEntry) : Prop where
  id : later.id = entry.id
  requestId : later.requestId = entry.requestId
  endpoint : later.endpoint = entry.endpoint
  eventType : later.eventType = entry.eventType
  payload : later.payload = entry.payload
  headers : later.headers = entry.headers
  reason : later.reason = entry.reason
  firstFailedAt : later.firstFailedAt = entry.firstFailedAt
  deadLetteredAt : later.deadLetteredAt = entry.deadLetteredAt
  errorTimeline : entry.errorTimeline <+: later.errorTimeline
  replayAttempts : entry.replayAttempts ≤ later.replayAttempts

section Continues

variable {entry later : DlqEntry}

theorem Continues.refl (entry : DlqEntry) : Continues entry entry :=
  ⟨rfl, rfl, rfl, rfl, rfl, rfl, rfl, rfl, rfl, List.prefix_rfl, le_rfl⟩

theorem Continues.failedReplay (h : Continues entry later) (outcome : DeliveryResult) (now : ℤ) :
    Continues entry (failedReplay later outcome now) :=
  { h with
    errorTimeline := h.errorTimeline.trans (List.prefix_append _ _)
    replayAttempts := Nat.le_succ_of_le h.replayAttempts }

theorem Continues.rescheduled (h : Continues entry later) (status : Option DlqEntryStatus)
    (nextDrainAt parkedAt : Option ℤ) :
    Continues entry { later with status := status, nextDrainAt := nextDrainAt, parkedAt := parkedAt } :=
  { h with }

end Continues

variable (options : DeadLetterQueueOptions) (urlHost : String → Option String)

def Returns (queue : DeadLetterQueue) (entryId : String) (number : ℕ) (outcome : Option DeliveryResult) : Prop :=
  outcome.isSome ∧ ∃ copy, queue.replays[number]? = some ⟨entryId, .waiting copy⟩

/-- How an entry may leave the queue that was added when `since` replays had been started: it is added anew, swept
out or evicted, or a replay that was started after it had been added is delivered. -/
def Leaves (since : ℕ) (entry : DlqEntry) (queue : DeadLetterQueue) : Event → Prop
  | .add newer => newer.id = entry.id
  | .sweep now => options.retentionMs < now - entry.deadLetteredAt
  | .evict entryId => entryId = entry.id
  | .settle number outcome _ =>
    Returns queue entry.id number outcome ∧ since ≤ number ∧ ∃ result, outcome = some result ∧ result.ok = true
  | _ => False

def Overtaken (since : ℕ) (entryId : String) (queue : DeadLetterQueue) : Event → Prop
  | .settle number outcome _ => Returns queue entryId number outcome ∧ number < since
  | _ => False

structure Kept (since : ℕ) (entry : DlqEntry) (queue : DeadLetterQueue) : Prop where
  present : ∃ e ∈ queue.entries, e.id = entry.id
  continued : ∀ e ∈ queue.entries, e.id = entry.id → Continues entry e
  copies : ∀ number copy, since ≤ number → queue.replays[number]? = some ⟨entry.id, .waiting copy⟩ →
    Continues entry copy

variable {options urlHost} {since : ℕ} {entry : DlqEntry} {queue : DeadLetterQueue}

theorem Kept.found (kept : Kept since entry queue) : ∃ e ∈ queue.entries, Continues entry e := by
  obtain ⟨e, he, hid⟩ := kept.present
  exact ⟨e, he, kept.continued e he hid⟩

theorem kept_add (queue : DeadLetterQueue) (entry : DlqEntry) :
    Kept queue.replays.length entry (queue.add entry) := by
  refine ⟨⟨entry, mem_put.mpr (Or.inr rfl), rfl⟩, ?_, ?_⟩
  · intro e he hid
    obtain ⟨-, hne⟩ | rfl := mem_put.mp he
    · exact absurd hid hne
    · exact Continues.refl e
  · intro number copy hsince hget
    have hnone : queue.replays[number]? = none := List.getElem?_eq_none hsince
    rw [add, hnone] at hget
    cases hget

theorem Kept.entries (kept : Kept since entry queue) {entries : List DlqEntry}
    (h : ∀ e, e.id = entry.id → (e ∈ entries ↔ e ∈ queue.entries)) :
    Kept since entry { queue with entries := entries } := by
  refine ⟨?_, ?_, kept.copies⟩
  · obtain ⟨e, he, hid⟩ := kept.present
    exact ⟨e, (h e hid).mpr he, hid⟩
  · intro e he hid
    exact kept.continued e ((h e hid).mp he) hid

theorem Kept.batches (kept : Kept since entry queue) (batches : List Batch) :
    Kept since entry { queue with batches := batches } := ⟨kept.present, kept.continued, kept.copies⟩

theorem Kept.add (kept : Kept since entry queue) {newer : DlqEntry} (h : newer.id ≠ entry.id) :
    Kept since entry (queue.add newer) := by
  apply kept.entries
  intro e hid
  rw [mem_put]
  constructor
  · rintro (⟨he, -⟩ | rfl)
    · exact he
    · exact absurd hid h
  · intro he
    exact Or.inl ⟨he, fun heq => h (heq.symm.trans hid)⟩

theorem Kept.sweep (kept : Kept since entry queue) {now : ℤ} (h : now - entry.deadLetteredAt ≤ options.retentionMs) :
    Kept since entry (queue.sweep options now) := by
  simp only [DeadLetterQueue.sweep, sweepExpiredEntries, List.partition_eq_filter_filter]
  split_ifs
  · obtain ⟨e, he, hid⟩ := kept.present
    have hage := (kept.continued e he hid).deadLetteredAt
    refine ⟨⟨e, ?_, hid⟩, ?_, kept.copies⟩
    · simp only [List.mem_filter, he, hage, h, decide_true, and_self]
    · intro e he hid
      exact kept.continued e (List.mem_filter.mp he).1 hid
  · exact kept

theorem Kept.evict (kept : Kept since entry queue) {entryId : String} (h : entryId ≠ entry.id) :
    Kept since entry (queue.evict entryId) := by
  simp only [DeadLetterQueue.evict]
  split_ifs
  · exact kept
  · apply kept.entries
    intro e hid
    rw [mem_remove, hid]
    exact and_iff_left h.symm

theorem Kept.started (kept : Kept since entry queue) (inFlight : List String) {replay : Replay}
    (h : ∀ copy, replay = ⟨entry.id, .waiting copy⟩ → Continues entry copy) :
    Kept since entry { queue with inFlight := inFlight, replays := queue.replays ++ [replay] } := by
  refine ⟨kept.present, kept.continued, ?_⟩
  intro number copy hsince hget
  rw [List.getElem?_append] at hget
  split_ifs at hget
  · exact kept.copies number copy hsince hget
  · obtain ⟨hlt, hsingle⟩ := List.getElem?_eq_some_iff.mp hget
    rw [List.getElem_singleton] at hsingle
    exact h copy hsingle

theorem Kept.replay (kept : Kept since entry queue) (entryId : String) :
    Kept since entry (queue.replay entryId) := by
  unfold DeadLetterQueue.replay
  split_ifs
  · apply kept.started
    rintro copy ⟨⟩
  · split
    · apply kept.started
      rintro copy ⟨⟩
    · rename_i found hget
      apply kept.started
      rintro copy ⟨⟩
      obtain ⟨hmem, hid⟩ := mem_of_get hget
      exact kept.continued found hmem hid

theorem Kept.replays (kept : Kept since entry queue) (entryIds : List String) :
    Kept since entry (entryIds.foldl DeadLetterQueue.replay queue) := by
  induction entryIds generalizing queue with
  | nil => exact kept
  | cons entryId entryIds ih => exact ih (kept.replay entryId)

theorem Kept.settled (kept : Kept since entry queue) {number : ℕ} {inFlight : List String} {entries : List DlqEntry}
    {replay : Replay} (h : replay.waits = false) (present : ∃ e ∈ entries, e.id = entry.id)
    (continued : ∀ e ∈ entries, e.id = entry.id → Continues entry e) :
    Kept since entry
      { queue with entries := entries, inFlight := inFlight, replays := queue.replays.set number replay } := by
  refine ⟨present, continued, ?_⟩
  intro n copy hsince hget
  rw [List.getElem?_set] at hget
  split_ifs at hget
  · rw [Option.some_inj] at hget
    rw [hget] at h
    cases h
  · exact kept.copies n copy hsince hget

theorem Kept.settle (kept : Kept since entry queue) {number : ℕ} {outcome : Option DeliveryResult} {now : ℤ}
    (hleaves : ¬Leaves options since entry queue (.settle number outcome now))
    (hovertaken : ¬Overtaken since entry.id queue (.settle number outcome now)) :
    Kept since entry (queue.settle number outcome now) := by
  unfold DeadLetterQueue.settle
  split
  · rename_i entryId copy hcopy hget
    cases outcome with
    | none => exact kept.settled rfl kept.present kept.continued
    | some outcome =>
      have hfresh : entryId = entry.id → since ≤ number := by
        rintro rfl
        by_contra hlate
        exact hovertaken ⟨⟨rfl, _, hget⟩, Nat.lt_of_not_le hlate⟩
      cases hok : outcome.ok with
      | true =>
        have hother : entryId ≠ entry.id := by
          rintro rfl
          exact hleaves ⟨⟨rfl, _, hget⟩, hfresh rfl, outcome, rfl, hok⟩
        simp only [hok, ↓reduceIte]
        apply kept.settled rfl
        · obtain ⟨e, he, hid⟩ := kept.present
          exact ⟨e, mem_remove.mpr ⟨he, fun heq => hother (heq.symm.trans hid)⟩, hid⟩
        · intro e he
          exact kept.continued e (mem_remove.mp he).1
      | false =>
        have hwritten : entryId = entry.id → Continues entry (failedReplay copy outcome now) := by
          rintro rfl
          exact (kept.copies number ⟨copy, hcopy⟩ (hfresh rfl) hget).failedReplay outcome now
        simp only [hok, Bool.false_eq_true, ↓reduceIte]
        apply kept.settled rfl
        · obtain ⟨e, he, hid⟩ := kept.present
          refine ⟨_, List.mem_map_of_mem he, ?_⟩
          split_ifs with heq
          · exact (hwritten (heq.symm.trans hid)).id
          · exact hid
        · intro e he hid
          obtain ⟨candidate, hcandidate, rfl⟩ := List.mem_map.mp he
          split_ifs at hid ⊢ with heq
          · exact hwritten (hcopy.symm.trans hid)
          · exact kept.continued candidate hcandidate hid
  · exact kept

theorem Kept.replaceEntry (kept : Kept since entry queue) {updated : DlqEntry}
    (h : updated.id = entry.id → Continues entry updated) : Kept since entry (queue.replaceEntry updated) := by
  refine ⟨?_, ?_, kept.copies⟩
  · obtain ⟨e, he, hid⟩ := kept.present
    by_cases hupdated : e.id = updated.id
    · exact ⟨updated, mem_replace.mpr (Or.inr ⟨rfl, e, he, hupdated⟩), hupdated.symm.trans hid⟩
    · exact ⟨e, mem_replace.mpr (Or.inl ⟨he, hupdated⟩), hid⟩
  · intro e he hid
    obtain ⟨he, -⟩ | ⟨rfl, -⟩ := mem_replace.mp he
    · exact kept.continued e he hid
    · exact h hid

theorem Kept.park (kept : Kept since entry queue) (result : ReplayResult) (now : ℤ) (random : ℚ) :
    Kept since entry (queue.park options result now random) := by
  unfold DeadLetterQueue.park
  split
  · split
    · exact kept
    · rename_i found hget
      have hfound : found.id = entry.id → Continues entry found := kept.continued found (mem_of_get hget).1
      simp only
      split_ifs
      · exact kept.replaceEntry fun hid => (hfound hid).rescheduled _ _ _
      · exact kept.replaceEntry fun hid => (hfound hid).rescheduled _ _ _
  · exact kept

theorem Kept.parkAll (kept : Kept since entry queue) (results : List ReplayResult) (now : ℤ) (random : ℕ → ℚ) :
    Kept since entry (queue.parkAll options results now random) := by
  unfold DeadLetterQueue.parkAll
  generalize results.zipIdx = indexed
  induction indexed generalizing queue with
  | nil => exact kept
  | cons result indexed ih => exact ih (kept.park result.1 now (random result.2))

theorem Kept.startBatch (kept : Kept since entry queue) (drains : Bool) (entryIds : List String) :
    Kept since entry (queue.startBatch options drains entryIds) := (kept.replays _).batches _

theorem Kept.resume (kept : Kept since entry queue) (number : ℕ) (now : ℤ) (random : ℕ → ℚ) :
    Kept since entry (queue.resume options number now random) := by
  unfold DeadLetterQueue.resume
  split
  · simp only
    split_ifs
    · exact kept.batches _
    · exact kept
    · exact (kept.batches _).parkAll _ _ _
    · exact kept.batches _
    · exact (kept.replays _).batches _
  · exact kept

theorem Kept.step (kept : Kept since entry queue) (event : Event)
    (hleaves : ¬Leaves options since entry queue event) (hovertaken : ¬Overtaken since entry.id queue event) :
    Kept since entry (queue.step options urlHost event) := by
  cases event with
  | add newer => exact kept.add hleaves
  | sweep now => exact kept.sweep (not_lt.mp hleaves)
  | evict entryId => exact kept.evict hleaves
  | replay entryId => exact kept.replay entryId
  | settle number outcome now => exact kept.settle hleaves hovertaken
  | replayBatch entryIds => exact kept.startBatch _ _
  | drain limits now => exact kept.startBatch _ _
  | resume number now random => exact kept.resume number now random

theorem added_entry_stays (queue : DeadLetterQueue) (entry : DlqEntry) (events : List Event)
    (stays : EachStep (step options urlHost) (fun q event => ¬Leaves options queue.replays.length entry q event)
      (queue.add entry) events)
    (undisturbed : EachStep (step options urlHost)
      (fun q event => ¬Overtaken queue.replays.length entry.id q event) (queue.add entry) events) :
    ∃ later ∈ (run (step options urlHost) (queue.add entry) events).entries, Continues entry later := by
  have heach := (eachStep_and _ _).mpr ⟨stays, undisturbed⟩
  have hkept : Kept queue.replays.length entry (run (step options urlHost) (queue.add entry) events) := by
    apply EachStep.invariant _ (kept_add queue entry) heach
    intro q event hq h
    exact hq.step event h.1 h.2
  exact hkept.found

section Sample

def sampleRequest : WebhookDeliveryRequest where
  id := "7"
  url := "https://receiver.example/hook"
  eventType := "run.failed"
  payload := .null

def sampleEntry (now : ℤ) : DlqEntry :=
  createDlqEntry sampleRequest [{ attempt := 1, statusCode := some 503, at' := now }] .retriesExhausted now

def sampleQueue : DeadLetterQueue :=
  run (step {} some) {} [.add (sampleEntry 0), .replay "dlq-7"]

theorem sample_entry_stays : ∃ later ∈ (run (step {} some) (sampleQueue.add (sampleEntry 10))
    [.settle 0 none 20, .replay "dlq-7", .settle 1 (some ⟨false, some 503, none⟩) 30]).entries,
    Continues (sampleEntry 10) later := by
  apply added_entry_stays
  · refine ⟨?_, nofun, ?_, trivial⟩
    · rintro ⟨⟨h, -⟩, -⟩
      cases h
    · rintro ⟨-, -, result, h, hok⟩
      rw [← Option.some_inj.mp h] at hok
      cases hok
  · refine ⟨?_, nofun, ?_, trivial⟩
    · rintro ⟨⟨h, -⟩, -⟩
      cases h
    · rintro ⟨-, hlt⟩
      exact absurd hlt (by decide)

theorem late_replay_removes_entry : ¬∀ event,
    ¬Leaves {} sampleQueue.replays.length (sampleEntry 10) (sampleQueue.add (sampleEntry 10)) event →
      ∃ later ∈ (step {} some (sampleQueue.add (sampleEntry 10)) event).entries, Continues (sampleEntry 10) later := by
  intro h
  obtain ⟨later, hlater, -⟩ := h (.settle 0 (some ⟨true, some 200, none⟩) 20) (by
    rintro ⟨-, hle, -⟩
    exact absurd hle (by decide))
  cases hlater

end Sample

end CrashLab.WebhookDlq.DeadLetterQueue
