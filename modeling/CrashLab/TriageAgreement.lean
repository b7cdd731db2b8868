import CrashLab.TriageRuns

namespace CrashLab.Triage

open JsStrings Comparators Histories ReadWriteCells

section Alone

variable {store : TriageRecords} {call : ApplyCall} {items : List TriageItemState} {id : JsString}

theorem listed_list (store : TriageRecords) (call : ApplyCall) : Listed call (store.list call.request.orgId) := by
  apply Listed.sortQueue
  refine ⟨filterMap_ids_nodup (ids_nodup store) fun id item => listedItem_id, fun item hitem => ?_⟩
  obtain ⟨id, -, hlisted⟩ := List.mem_filterMap.mp hitem
  exact (listedItem_eq_some.mp hlisted).2

theorem find_list : find id (store.list call.request.orgId) = seenItem store call id (store.records id) := by
  have hunique := filterMap_ids_nodup (ids_nodup store)
    (f := fun id => listedItem call.request.orgId (store.records id)) fun id item => listedItem_id
  rw [TriageRecords.list, sortQueue, find_perm hunique (sortBy_perm _ _),
    find_filterMap fun other item => listedItem_id, seenItem_eq]

theorem save_records (unique : (items.map TriageItemState.id).Nodup) (hlength : items.length ≤ maxItems) :
    (store.save items).records id = ((find id items).map fun item => some (TriageRecord.item item)).getD
      (store.records id) := by
  unfold TriageRecords.save
  rw [List.take_of_length_le hlength]
  clear hlength
  induction items generalizing store with
  | nil => rfl
  | cons item items ih =>
    rw [List.map_cons, List.nodup_cons] at unique
    rw [List.foldl_cons, ih unique.2]
    by_cases hid : item.id = id
    · subst hid
      have habsent : find item.id items = none := by
        rw [find_eq_none]
        intro other hother hsame
        exact unique.1 (List.mem_map.mpr ⟨other, hother, hsame⟩)
      have hfind : find item.id (item :: items) = some item := List.find?_cons_of_pos (by simp)
      rw [habsent, hfind]
      exact Function.update_self item.id (some (TriageRecord.item item)) store.records
    · have hfind : find id (item :: items) = find id items := List.find?_cons_of_neg (by simpa using hid)
      have hrecord : ((store.putRecord item).addToIndex item.id).records id = store.records id :=
        Function.update_of_ne (Ne.symm hid) ..
      rw [hfind, hrecord]

theorem save_index (hindex : ∀ item ∈ items, item.id ∈ store.index) : (store.save items).index = store.index := by
  unfold TriageRecords.save
  have htake : ∀ item ∈ items.take maxItems, item.id ∈ store.index := fun item h => hindex item (List.mem_of_mem_take h)
  generalize items.take maxItems = items at htake
  clear hindex
  induction items generalizing store with
  | nil => rfl
  | cons item items ih =>
    rw [List.forall_mem_cons] at htake
    have hhead : ((store.putRecord item).addToIndex item.id).index = store.index := if_pos htake.1
    rw [List.foldl_cons, ih (by rw [hhead]; exact htake.2), hhead]

theorem list_length : (store.list call.request.orgId).length ≤ maxItems := by
  rw [TriageRecords.list, sortQueue, (sortBy_perm _ _).length_eq]
  exact (List.length_filterMap_le ..).trans (List.length_take_le ..)

theorem apply_records : (store.apply call).2.records id =
    (change store call id (store.records id)).getD (store.records id) := by
  have hlisted := listed_list store call
  change (store.save (call.decide (store.list call.request.orgId)).updated).records id = _
  rw [save_records hlisted.updated_unique (hlisted.updated_length.trans list_length), hlisted.find_updated, find_list]
  rfl

theorem apply_index : (store.apply call).2.index = store.index := by
  have hlisted := listed_list store call
  apply save_index
  intro next hnext
  obtain ⟨item, hitem, hsame⟩ := hlisted.updated_mem hnext
  obtain ⟨id, hid, hseen⟩ := List.mem_filterMap.mp ((sortBy_perm _ _).mem_iff.mp hitem)
  rw [← hsame, listedItem_id hseen]
  exact List.mem_of_mem_take hid

theorem change_of_index {other : TriageRecords} (hindex : other.index = store.index) :
    change other call id = change store call id := by
  funext seen
  rw [change, change, seenItem_eq, seenItem_eq, ids_eq hindex]

end Alone

section Runs

variable {store : TriageRecords} {calls : Bool → ApplyCall} {contest : Contest} {turn : Bool} {id : JsString}

def Contest.changes (store : TriageRecords) (calls : Bool → ApplyCall) (id : JsString) (p : Bool) :
    Option TriageRecord → Option (Option TriageRecord) := change store (calls p) id

structure Contest.Sound (store : TriageRecords) (calls : Bool → ApplyCall) (contest : Contest) : Prop where
  index : contest.shared.index = store.index
  regular : ∀ p, Regular store (calls p) (contest.locals p)

def Contest.At (store : TriageRecords) (calls : Bool → ApplyCall) (id : JsString)
    (P : Option TriageRecord → (Bool → Stage (Option TriageRecord)) → Prop) (contest : Contest) : Prop :=
  ∃ stage, (∀ p, Follows store (calls p) id (contest.locals p) (stage p)) ∧ P (contest.shared.records id) stage

def Contest.Kept (store : TriageRecords) (calls : Bool → ApplyCall) (id : JsString) : Contest → Prop :=
  Contest.At store calls id (Serial (Contest.changes store calls id) (store.records id))

def Contest.Lost (store : TriageRecords) (calls : Bool → ApplyCall) (id : JsString) : Contest → Prop :=
  Contest.At store calls id fun value stage =>
    ∃ x, Overwritten (Contest.changes store calls id) x (store.records id) value stage

theorem Contest.Sound.step (h : contest.Sound store calls) (turn : Bool) :
    (contest.step calls turn).Sound store calls := by
  unfold Contest.step Interleavings.step
  split
  · rename_i phase current hnext
    obtain ⟨hregular, hindex⟩ := (h.regular turn).next h.index hnext
    refine ⟨hindex, fun p => ?_⟩
    change Regular store (calls p) (Function.update contest.locals turn phase p)
    by_cases hp : p = turn
    · subst hp
      rw [Function.update_self]
      exact hregular
    · rw [Function.update_of_ne hp]
      exact h.regular p
  · exact h

theorem follows_update {phase : Phase} {stage : Bool → Stage (Option TriageRecord)} {next : Stage (Option TriageRecord)}
    (h : ∀ p, Follows store (calls p) id (contest.locals p) (stage p))
    (hnext : Follows store (calls turn) id phase next) (p : Bool) :
    Follows store (calls p) id (Function.update contest.locals turn phase p) (Function.update stage turn next p) := by
  by_cases hp : p = turn
  · subst hp
    rw [Function.update_self, Function.update_self]
    exact hnext
  · rw [Function.update_of_ne hp, Function.update_of_ne hp]
    exact h p

theorem Contest.Kept.step (h : contest.Kept store calls id) (hsound : contest.Sound store calls) (turn : Bool) :
    (Unmoved contest turn → (contest.step calls turn).Kept store calls id) ∧
      ((∃ items item left result, contest.locals turn = .writing items (item :: left) result ∧ item.id = id) →
        ¬Unmoved contest turn → (contest.step calls turn).Lost store calls id) := by
  obtain ⟨stage, hfollows, hserial⟩ := h
  unfold Contest.step Interleavings.step
  split
  · rename_i phase current hnext
    obtain ⟨hother, hrecord, stage', hfollow, hquiet⟩ |
      ⟨items, item, left, result, hphase, hid, seen, hloaded, hread, hchange, hfollow⟩ :=
      (hfollows turn).next (hsound.regular turn) hsound.index hnext
    · refine ⟨fun _ => ⟨_, follows_update hfollows hfollow, ?_⟩, ?_⟩
      · change Serial _ _ (current.records id) _
        rw [hrecord]
        exact hserial.quiet hquiet
      · rintro ⟨items, item, left, result, hphase, hid⟩
        exact absurd hid (hother items item left result hphase)
    · have hstore := hserial.store (p := turn) hloaded hchange
      have hunmoved : Unmoved contest turn ↔ contest.shared.records id = seen := by
        unfold Unmoved
        rw [hphase]
        subst hid
        rw [← hread]
        rfl
      refine ⟨fun h => ⟨_, follows_update hfollows hfollow, hstore.1 (hunmoved.mp h)⟩, fun _ h => ?_⟩
      exact ⟨_, follows_update hfollows hfollow, hstore.2 fun hseen => h (hunmoved.mpr hseen)⟩
  · rename_i hnone
    refine ⟨fun _ => ⟨stage, hfollows, hserial⟩, ?_⟩
    rintro ⟨items, item, left, result, hphase, -⟩
    dsimp only at hnone
    rw [hphase] at hnone
    cases hnone

theorem Contest.Lost.step (h : contest.Lost store calls id) (hsound : contest.Sound store calls) (turn : Bool) :
    (contest.step calls turn).Lost store calls id := by
  obtain ⟨stage, hfollows, x, hlost⟩ := h
  unfold Contest.step Interleavings.step
  split
  · rename_i phase current hnext
    have hsettled := hlost.settled turn
    obtain ⟨-, hrecord, stage', hfollow, hquiet⟩ | ⟨_, _, _, _, _, _, seen, hloaded, _⟩ :=
      (hfollows turn).next (hsound.regular turn) hsound.index hnext
    · have hstage : stage' = stage turn := by
        rw [hsettled] at hquiet ⊢
        cases hquiet
        rfl
      refine ⟨_, follows_update hfollows hfollow, x, ?_⟩
      rw [hstage, Function.update_eq_self]
      change Overwritten _ x _ (current.records id) stage
      rw [hrecord]
      exact hlost
    · rw [hsettled] at hloaded
      cases hloaded
  · exact ⟨stage, hfollows, x, hlost⟩

theorem Contest.sound_start (store : TriageRecords) (calls : Bool → ApplyCall) :
    (Contest.start store).Sound store calls := ⟨rfl, fun _ => trivial⟩

theorem Contest.kept_start (store : TriageRecords) (calls : Bool → ApplyCall) (id : JsString) :
    (Contest.start store).Kept store calls id := ⟨fun _ => .fresh, fun _ => rfl, serial_fresh⟩

theorem Contest.Lost.run (h : contest.Lost store calls id) (hsound : contest.Sound store calls) (turns : List Bool) :
    (run (Contest.step calls) contest turns).Lost store calls id :=
  (run_invariant (I := fun contest : Contest => contest.Sound store calls ∧ contest.Lost store calls id)
    (fun _ turn h => ⟨h.1.step turn, h.2.step h.1 turn⟩) ⟨hsound, h⟩ turns).2

theorem writing_of_moved (h : ¬Unmoved contest turn) :
    ∃ items item left result, contest.locals turn = .writing items (item :: left) result := by
  unfold Unmoved at h
  split at h
  · rename_i items item left result hphase
    exact ⟨items, item, left, result, hphase⟩
  · exact absurd trivial h

theorem Contest.kept_or_lost (hkept : ∀ id, contest.Kept store calls id) (hsound : contest.Sound store calls)
    (turns : List Bool) :
    (EachStep (Contest.step calls) Unmoved contest turns ∧
        ∀ id, (run (Contest.step calls) contest turns).Kept store calls id) ∨
      (¬EachStep (Contest.step calls) Unmoved contest turns ∧
        ∃ id, (run (Contest.step calls) contest turns).Lost store calls id) := by
  induction turns generalizing contest with
  | nil => exact .inl ⟨trivial, hkept⟩
  | cons turn turns ih =>
    by_cases hunmoved : Unmoved contest turn
    · obtain ⟨heach, hrun⟩ | ⟨heach, hrun⟩ :=
        ih (fun id => ((hkept id).step hsound turn).1 hunmoved) (hsound.step turn)
      · exact .inl ⟨⟨hunmoved, heach⟩, hrun⟩
      · exact .inr ⟨fun h => heach h.2, hrun⟩
    · obtain ⟨items, item, left, result, hphase⟩ := writing_of_moved hunmoved
      have hlost := ((hkept item.id).step hsound turn).2 ⟨items, item, left, result, hphase, rfl⟩ hunmoved
      exact .inr ⟨fun h => hunmoved h.1, item.id, hlost.run (hsound.step turn) turns⟩

end Runs

section Outcome

variable {store : TriageRecords} {calls : Bool → ApplyCall} {contest : Contest} {id : JsString}

def TriageRecords.versionAt (store : TriageRecords) (id : JsString) : ℕ :=
  match store.records id with
  | some (.item item) => item.version
  | _ => 0

def Phase.reported (id : JsString) : Phase → ℕ
  | .done _ result => result.updated.countP fun item => item.id = id
  | _ => 0

def Contest.Done (contest : Contest) : Prop := ∀ p, ∃ items result, contest.locals p = .done items result

/-- The record of an id is as one of the two orders leaves it, and its version counts the reported updates. -/
def Contest.Accounted (store : TriageRecords) (calls : Bool → ApplyCall) (contest : Contest) (id : JsString) : Prop :=
  (∃ p, contest.shared.records id = ((store.apply (calls p)).2.apply (calls !p)).2.records id) ∧
    contest.shared.versionAt id =
      store.versionAt id + (contest.locals true).reported id + (contest.locals false).reported id

def recordVersion : Option TriageRecord → ℕ
  | some (.item item) => item.version
  | _ => 0

theorem changes_grow (p : Bool) (value next : Option TriageRecord)
    (h : Contest.changes store calls id p value = some next) : recordVersion next = recordVersion value + 1 := by
  obtain ⟨item, update, -, rfl, hupdate, rfl⟩ := change_eq_some h
  exact (ApplyCall.update_keeps hupdate).2.2

theorem done_settled (hsound : contest.Sound store calls) (hdone : contest.Done)
    {stage : Bool → Stage (Option TriageRecord)}
    (hfollows : ∀ p, Follows store (calls p) id (contest.locals p) (stage p)) (p : Bool) :
    (∃ seen, stage p = .settled seen) ∧
      (contest.locals p).reported id = writes (Contest.changes store calls id) stage p := by
  obtain ⟨items, result, hphase⟩ := hdone p
  have hfollow := hfollows p
  have hregular := hsound.regular p
  rw [hphase] at hfollow hregular ⊢
  obtain ⟨seen, hdecided⟩ := hfollow
  obtain ⟨-, next, hnext, -⟩ | ⟨hsettled, -⟩ := hdecided.stage
  · cases hnext
  · refine ⟨⟨seen, hsettled⟩, ?_⟩
    change (result.updated.countP fun item => item.id = id) = _
    rw [countP_eq_find hregular.reported, writes, hsettled]
    change _ = if (change store (calls p) id seen).isSome then 1 else 0
    rw [← hdecided.reported, Option.isSome_map]

theorem sequential_records (p : Bool) : ((store.apply (calls p)).2.apply (calls !p)).2.records id =
    effect (Contest.changes store calls id) (!p) (effect (Contest.changes store calls id) p (store.records id)) := by
  rw [apply_records, change_of_index apply_index, apply_records]
  rfl

theorem Contest.Kept.accounted (h : contest.Kept store calls id) (hsound : contest.Sound store calls)
    (hdone : contest.Done) : contest.Accounted store calls id := by
  obtain ⟨stage, hfollows, hserial⟩ := h
  have hsettled := done_settled hsound hdone hfollows
  constructor
  · obtain ⟨p, hp⟩ := hserial.effect_eq fun p => (hsettled p).1
    exact ⟨p, hp.trans (sequential_records p).symm⟩
  · rw [(hsettled true).2, (hsettled false).2]
    exact hserial.height_eq changes_grow fun p => (hsettled p).1

theorem Contest.Lost.not_accounted (h : contest.Lost store calls id) (hsound : contest.Sound store calls)
    (hdone : contest.Done) : ¬contest.Accounted store calls id := by
  obtain ⟨stage, hfollows, x, hlost⟩ := h
  have hsettled := done_settled hsound hdone hfollows
  rintro ⟨-, hversion⟩
  rw [(hsettled true).2, (hsettled false).2] at hversion
  exact (hlost.height_lt changes_grow).ne hversion

theorem triage_updates_kept_iff (store : TriageRecords) (calls : Bool → ApplyCall) (turns : List Bool)
    (hdone : (run (Contest.step calls) (Contest.start store) turns).Done) :
    (∀ id, (run (Contest.step calls) (Contest.start store) turns).Accounted store calls id) ↔
      EachStep (Contest.step calls) Unmoved (Contest.start store) turns := by
  have hstart := Contest.sound_start store calls
  have hsound : (run (Contest.step calls) (Contest.start store) turns).Sound store calls :=
    run_invariant (I := fun contest : Contest => contest.Sound store calls) (fun _ turn h => h.step turn) hstart turns
  obtain ⟨heach, hkept⟩ | ⟨heach, id, hlost⟩ :=
    Contest.kept_or_lost (Contest.kept_start store calls) hstart turns
  · exact ⟨fun _ => heach, fun _ id => (hkept id).accounted hsound hdone⟩
  · exact ⟨fun h => absurd (h id) (hlost.not_accounted hsound hdone), fun h => absurd h heach⟩

end Outcome

section Samples

def Phase.isDone : Phase → Bool
  | .done _ _ => true
  | _ => false

theorem exists_done {phase : Phase} : (∃ items result, phase = .done items result) ↔ phase.isDone = true := by
  cases phase <;> simp [Phase.isDone]

instance (contest : Contest) : Decidable contest.Done :=
  decidable_of_iff (∀ p, (contest.locals p).isDone = true) (forall_congr' fun _ => exists_done.symm)

instance (contest : Contest) (turn : Bool) : Decidable (Unmoved contest turn) := by
  unfold Unmoved
  split <;> infer_instance

def crashItem : TriageItemState where
  id := ofString "crash-1"
  orgId := ofString "org"
  signature := ofString "sig"
  failureClass := ofString "auth"
  severity := .high
  occurrences := 3
  status := .new
  priority := .p2
  version := 1
  updatedAt := ofString "2026-01-01T00:00:00.000Z"

def queuedCrash : TriageRecords where
  index := [crashItem.id]
  records := fun id => if id = crashItem.id then some (.item crashItem) else none
  index_nodup := List.nodup_singleton _
  keyed id item h := by
    by_cases hid : id = crashItem.id
    · rw [if_pos hid] at h
      cases h
      exact hid.symm
    · rw [if_neg hid] at h
      cases h

def twoMaintainers (p : Bool) : ApplyCall where
  request :=
    { ids := [crashItem.id]
      ids_nodup := List.nodup_singleton _
      status := if p then some (ofString "triaged") else none
      priority := if p then none else some (ofString "p0")
      actor := if p then ofString "alice" else ofString "bob" }
  clock := ofString "2026-01-02T00:00:00.000Z"

theorem one_after_the_other_kept :
    (run (Contest.step twoMaintainers) (Contest.start queuedCrash)
      [true, true, true, true, false, false, false, false]).Accounted queuedCrash twoMaintainers crashItem.id :=
  (triage_updates_kept_iff _ _ _ (by decide +kernel)).mpr (by decide +kernel) crashItem.id

theorem crossed_update_lost :
    (run (Contest.step twoMaintainers) (Contest.start queuedCrash)
      [true, false, true, false, true, true, false, false]).Done ∧
    ¬(run (Contest.step twoMaintainers) (Contest.start queuedCrash)
      [true, false, true, false, true, true, false, false]).Accounted queuedCrash twoMaintainers crashItem.id :=
  ⟨by decide +kernel, fun h => absurd h.2 (by decide +kernel)⟩

end Samples

end CrashLab.Triage
