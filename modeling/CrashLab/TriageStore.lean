import CrashLab.Fallible
import CrashLab.Histories
import CrashLab.ReadWriteCells
import CrashLab.TriageItems

namespace CrashLab.Triage

open JsStrings Comparators Fallible Histories ReadWriteCells

section Store

def maxItems : ℕ := 5000

/-- A record that `parseItem` does not accept is corrupt. -/
inductive TriageRecord where
  | item (item : TriageItemState)
  | corrupt
deriving DecidableEq

structure TriageRecords where
  index : List JsString
  records : JsString → Option TriageRecord
  index_nodup : index.Nodup
  keyed : ∀ id item, records id = some (.item item) → item.id = id

def priorityRank : TriagePriority → ℚ
  | .p0 => 0
  | .p1 => 1
  | .p2 => 2
  | .p3 => 3

def compareIds (a b : JsString) : ℚ :=
  if sortKey a < sortKey b then -1 else if sortKey b < sortKey a then 1 else 0

def compareItems : TriageItemState → TriageItemState → ℚ :=
  thenBy (fun a b => priorityRank a.priority - priorityRank b.priority)
    (thenBy (fun a b => (b.occurrences : ℚ) - a.occurrences) fun a b => compareIds a.id b.id)

def sortQueue (items : List TriageItemState) : List TriageItemState := sortBy compareItems items

def listedItem (orgId : Option JsString) : Option TriageRecord → Option TriageItemState
  | some (.item item) => if orgId.any (· ≠ item.orgId) then none else some item
  | _ => none

def TriageRecords.ids (store : TriageRecords) : List JsString := store.index.take maxItems

def TriageRecords.list (store : TriageRecords) (orgId : Option JsString) : List TriageItemState :=
  sortQueue (store.ids.filterMap fun id => listedItem orgId (store.records id))

def TriageRecords.putRecord (store : TriageRecords) (item : TriageItemState) : TriageRecords where
  index := store.index
  records := Function.update store.records item.id (some (.item item))
  index_nodup := store.index_nodup
  keyed id other h := by
    by_cases hid : id = item.id
    · rw [hid, Function.update_self] at h
      cases h
      exact hid.symm
    · rw [Function.update_of_ne hid] at h
      exact store.keyed id other h

def TriageRecords.addToIndex (store : TriageRecords) (id : JsString) : TriageRecords where
  index := if id ∈ store.index then store.index else store.index ++ [id]
  records := store.records
  index_nodup := by
    split_ifs with h
    · exact store.index_nodup
    · exact List.nodup_append.mpr ⟨store.index_nodup, List.nodup_singleton id, by
        rintro a ha b hb rfl
        rw [List.mem_singleton] at hb
        exact h (hb ▸ ha)⟩
  keyed := store.keyed

def TriageRecords.save (store : TriageRecords) (items : List TriageItemState) : TriageRecords :=
  (items.take maxItems).foldl (fun store item => (store.putRecord item).addToIndex item.id) store

/-- A call of `apply` and the instant its clock shows when it decides. -/
structure ApplyCall where
  request : BulkTriageRequest
  clock : JsString

def ApplyCall.decide (call : ApplyCall) (items : List TriageItemState) : BulkTriageResult :=
  applyBulkTriage items call.request call.clock

def TriageRecords.apply (store : TriageRecords) (call : ApplyCall) : BulkTriageResult × TriageRecords :=
  let result := call.decide (store.list call.request.orgId)
  (result, store.save result.updated)

end Store

section Runs

inductive Phase where
  | listing
  | reading (left : List JsString) (read : List TriageItemState)
  | writing (items left : List TriageItemState) (result : BulkTriageResult)
  | indexing (items : List TriageItemState) (written : TriageItemState) (left : List TriageItemState)
      (result : BulkTriageResult)
  | done (items : List TriageItemState) (result : BulkTriageResult)

def writeOn (items left : List TriageItemState) (result : BulkTriageResult) : Phase :=
  if left = [] then .done items result else .writing items left result

def readOn (call : ApplyCall) (left : List JsString) (read : List TriageItemState) : Phase :=
  if left = [] then
    let items := sortQueue read
    let result := call.decide items
    writeOn items (result.updated.take maxItems) result
  else .reading left read

def Phase.next (call : ApplyCall) : Phase → TriageRecords → Option (Phase × TriageRecords)
  | .listing, store => some (readOn call store.ids [], store)
  | .reading (id :: left) read, store =>
    some (readOn call left (read ++ (listedItem call.request.orgId (store.records id)).toList), store)
  | .reading [] _, _ => none
  | .writing items (item :: left) result, store => some (.indexing items item left result, store.putRecord item)
  | .writing _ [] _, _ => none
  | .indexing items written left result, store => some (writeOn items left result, store.addToIndex written.id)
  | .done _ _, _ => none

abbrev Contest := Interleavings.Config Bool Phase TriageRecords

def Contest.start (store : TriageRecords) : Contest := ⟨fun _ => .listing, store⟩

def Contest.step (calls : Bool → ApplyCall) (contest : Contest) (turn : Bool) : Contest :=
  Interleavings.step (fun p phase store => Phase.next (calls p) phase store) contest (turn, turn)

def Unmoved (contest : Contest) (turn : Bool) : Prop :=
  match contest.locals turn with
  | .writing items (item :: _) _ =>
    contest.shared.records item.id = (items.find? fun seen => seen.id = item.id).map TriageRecord.item
  | _ => True

end Runs

section Transitions

variable {item next : TriageItemState} {input : TriageMutationInput} {call : ApplyCall} {items : List TriageItemState}
variable {id : JsString}

def movedFields (item : TriageItemState) (status : TriageStatus) (assignee : Option JsString)
    (priority : TriagePriority) : List TriageField :=
  (if status ≠ item.status then [.status] else []) ++ (if assignee ≠ item.assignee then [.assignee] else []) ++
    (if priority ≠ item.priority then [.priority] else [])

def moved (item : TriageItemState) (input : TriageMutationInput) (status : TriageStatus) (assignee : Option JsString)
    (priority : TriagePriority) : TriageItemState :=
  { item with
    status
    priority
    assignee
    version := item.version + 1
    updatedAt := input.now
    updatedBy := some (normaliseActor input.actor) }

structure Accepted (item : TriageItemState) (input : TriageMutationInput) (status : TriageStatus)
    (assignee : Option JsString) (priority : TriagePriority) : Prop where
  asked : (input.status.isNone && input.assignee.isNone && input.priority.isNone) = false
  status : ∃ wanted, parseStatus input = .ok wanted ∧ moveTo item wanted = .ok status
  assignee : nextAssignee item input = .ok assignee
  priority : nextPriority item input = .ok priority

theorem movedFields_eq_nil {status : TriageStatus} {assignee : Option JsString} {priority : TriagePriority} :
    movedFields item status assignee priority = [] ↔
      status = item.status ∧ assignee = item.assignee ∧ priority = item.priority := by
  unfold movedFields
  split_ifs <;> simp_all

theorem transition_of_accepted {status : TriageStatus} {assignee : Option JsString} {priority : TriagePriority}
    (h : Accepted item input status assignee priority) : transitionTriageItem item input =
      .ok (if movedFields item status assignee priority = [] then
        { item, changed := false, before := snapshotOf item, after := snapshotOf item, fields := [] }
      else
        { item := moved item input status assignee priority
          changed := true
          before := snapshotOf item
          after := snapshotOf (moved item input status assignee priority)
          fields := movedFields item status assignee priority }) := by
  obtain ⟨wanted, hwanted, hstatus⟩ := h.status
  have hassignee := h.assignee
  have hpriority := h.priority
  unfold transitionTriageItem
  rw [if_neg (by rw [h.asked]; decide)]
  refine bind_eq_ok.mpr ⟨wanted, hwanted, bind_eq_ok.mpr ⟨priority, hpriority, bind_eq_ok.mpr ⟨status, hstatus,
    bind_eq_ok.mpr ⟨assignee, hassignee, ?_⟩⟩⟩⟩
  by_cases hfields : movedFields item status assignee priority = []
  · rw [if_pos hfields]
    exact if_pos hfields
  · rw [if_neg hfields]
    exact if_neg hfields

theorem accepted_of_transition {transition : TriageTransition} (h : transitionTriageItem item input = .ok transition) :
    ∃ status assignee priority, Accepted item input status assignee priority := by
  unfold transitionTriageItem at h
  split_ifs at h with hempty
  obtain ⟨wanted, hwanted, h⟩ := bind_eq_ok.mp h
  obtain ⟨priority, hpriority, h⟩ := bind_eq_ok.mp h
  obtain ⟨status, hstatus, h⟩ := bind_eq_ok.mp h
  obtain ⟨assignee, hassignee, -⟩ := bind_eq_ok.mp h
  exact ⟨status, assignee, priority, Bool.not_eq_true _ ▸ hempty, ⟨wanted, hwanted, hstatus⟩, hassignee, hpriority⟩

theorem updatedItem_eq_some : updatedItem (transitionTriageItem item input) = some next ↔
    ∃ status assignee priority, Accepted item input status assignee priority ∧
      movedFields item status assignee priority ≠ [] ∧ next = moved item input status assignee priority := by
  constructor
  · intro h
    cases htransition : transitionTriageItem item input with
    | error error =>
      rw [htransition] at h
      cases h
    | ok transition =>
      obtain ⟨status, assignee, priority, haccepted⟩ := accepted_of_transition htransition
      rw [transition_of_accepted haccepted] at h
      refine ⟨status, assignee, priority, haccepted, ?_⟩
      by_cases hfields : movedFields item status assignee priority = []
      · rw [if_pos hfields] at h
        cases h
      · rw [if_neg hfields] at h
        cases h
        exact ⟨hfields, rfl⟩
  · rintro ⟨status, assignee, priority, haccepted, hfields, rfl⟩
    rw [transition_of_accepted haccepted, if_neg hfields]
    rfl

theorem updatedItem_transition (h : updatedItem (transitionTriageItem item input) = some next) :
    next.id = item.id ∧ next.orgId = item.orgId ∧ next.version = item.version + 1 := by
  obtain ⟨status, assignee, priority, -, -, rfl⟩ := updatedItem_eq_some.mp h
  exact ⟨rfl, rfl, rfl⟩

end Transitions

section Items

def find (id : JsString) (items : List TriageItemState) : Option TriageItemState :=
  items.find? fun item => item.id = id

variable {id : JsString} {items items' : List TriageItemState} {item : TriageItemState}

theorem find_eq_some_iff (unique : (items.map TriageItemState.id).Nodup) :
    find id items = some item ↔ item ∈ items ∧ item.id = id := by
  constructor
  · intro h
    exact ⟨List.mem_of_find?_eq_some h, by simpa using List.find?_some h⟩
  · rintro ⟨hmem, rfl⟩
    cases hfind : find item.id items with
    | none =>
      have habsent := List.find?_eq_none.mp hfind item hmem
      simp at habsent
    | some other =>
      have hother : other.id = item.id := by simpa using List.find?_some hfind
      rw [List.inj_on_of_nodup_map unique (List.mem_of_find?_eq_some hfind) hmem hother]

theorem find_perm (unique : (items.map TriageItemState.id).Nodup) (h : items'.Perm items) :
    find id items' = find id items := by
  have unique' : (items'.map TriageItemState.id).Nodup := (h.map _).nodup_iff.mpr unique
  apply Option.ext
  intro item
  rw [find_eq_some_iff unique, find_eq_some_iff unique', h.mem_iff]

theorem itemById_eq (unique : (items.map TriageItemState.id).Nodup) : itemById items id = find id items :=
  find_perm unique (List.reverse_perm items)

theorem find_eq_none : find id items = none ↔ ∀ item ∈ items, item.id ≠ id := by
  simp [find]

theorem id_of_find (h : find id items = some item) : item.id = id := by simpa using List.find?_some h

theorem find_append (items others : List TriageItemState) :
    find id (items ++ others) = (find id items).or (find id others) := List.find?_append ..

theorem find_filterMap {ids : List JsString} {f : JsString → Option TriageItemState}
    (keeps : ∀ other item, f other = some item → item.id = other) :
    find id (ids.filterMap f) = if id ∈ ids then f id else none := by
  induction ids with
  | nil => rfl
  | cons other ids ih =>
    cases hf : f other with
    | none =>
      rw [List.filterMap_cons_none hf, ih]
      by_cases hid : id = other
      · subst hid
        simp [hf]
      · simp [hid]
    | some item =>
      have hitem := keeps other item hf
      rw [List.filterMap_cons_some hf]
      by_cases hid : id = other
      · subst hid
        rw [find, List.find?_cons_of_pos (by simpa using hitem)]
        simp [hf]
      · rw [find, List.find?_cons_of_neg (by simpa [hitem] using Ne.symm hid)]
        change find id (ids.filterMap f) = _
        rw [ih]
        simp [hid]

theorem filterMap_ids_nodup {ids : List JsString} {f : JsString → Option TriageItemState} (unique : ids.Nodup)
    (keeps : ∀ other item, f other = some item → item.id = other) :
    ((ids.filterMap f).map TriageItemState.id).Nodup := by
  induction ids with
  | nil => exact List.nodup_nil
  | cons other ids ih =>
    rw [List.nodup_cons] at unique
    cases hf : f other with
    | none =>
      rw [List.filterMap_cons_none hf]
      exact ih unique.2
    | some item =>
      rw [List.filterMap_cons_some hf, List.map_cons, List.nodup_cons]
      refine ⟨fun hmem => unique.1 ?_, ih unique.2⟩
      obtain ⟨later, hlater, hsame⟩ := List.mem_map.mp hmem
      obtain ⟨source, hsource, hfs⟩ := List.mem_filterMap.mp hlater
      rw [keeps other item hf, keeps source later hfs] at hsame
      exact hsame ▸ hsource

theorem countP_eq_find (unique : (items.map TriageItemState.id).Nodup) :
    (items.countP fun item => item.id = id) = if (find id items).isSome then 1 else 0 := by
  induction items with
  | nil => rfl
  | cons item items ih =>
    rw [List.map_cons, List.nodup_cons] at unique
    by_cases hid : item.id = id
    · have habsent : find id items = none := by
        rw [find_eq_none]
        intro other hother hsame
        exact unique.1 (List.mem_map.mpr ⟨other, hother, hsame.trans hid.symm⟩)
      rw [List.countP_cons_of_pos (by simpa using hid), ih unique.2, habsent, find,
        List.find?_cons_of_pos (by simpa using hid)]
      rfl
    · rw [List.countP_cons_of_neg (by simpa using hid), ih unique.2, find, find,
        List.find?_cons_of_neg (by simpa using hid)]

end Items

section Decisions

structure Listed (call : ApplyCall) (items : List TriageItemState) : Prop where
  unique : (items.map TriageItemState.id).Nodup
  inScope : ∀ item ∈ items, call.request.orgId.any (· ≠ item.orgId) = false

def ApplyCall.update (call : ApplyCall) (item : TriageItemState) : Option TriageItemState :=
  if call.request.ids.contains item.id then updatedItem (transitionTriageItem item (call.request.input call.clock))
  else none

variable {call : ApplyCall} {items : List TriageItemState} {item next : TriageItemState} {id : JsString}

theorem ApplyCall.update_keeps (h : call.update item = some next) :
    next.id = item.id ∧ next.orgId = item.orgId ∧ next.version = item.version + 1 := by
  unfold ApplyCall.update at h
  split_ifs at h with hid
  exact updatedItem_transition h

theorem Listed.mutateItem_eq (h : Listed call items) (id : JsString) :
    updatedItem (mutateItem items call.request call.clock id) =
      (find id items).bind fun item => updatedItem (transitionTriageItem item (call.request.input call.clock)) := by
  unfold mutateItem
  rw [itemById_eq h.unique]
  cases hfind : find id items with
  | none => rfl
  | some item =>
    have hscope := h.inScope item (List.mem_of_find?_eq_some hfind)
    dsimp only
    rw [if_neg (by rw [hscope]; exact Bool.false_ne_true)]
    rfl

theorem Listed.mutateItem_id (h : Listed call items) (id : JsString)
    (hnext : updatedItem (mutateItem items call.request call.clock id) = some next) : next.id = id := by
  rw [h.mutateItem_eq, Option.bind_eq_some_iff] at hnext
  obtain ⟨item, hfind, hnext⟩ := hnext
  rw [(updatedItem_transition hnext).1, id_of_find hfind]

theorem Listed.find_updated (h : Listed call items) :
    find id (call.decide items).updated = (find id items).bind call.update := by
  change find id (call.request.ids.filterMap fun id => updatedItem (mutateItem items call.request call.clock id)) = _
  rw [find_filterMap fun other item => h.mutateItem_id other, h.mutateItem_eq]
  cases hfind : find id items with
  | none => simp
  | some item =>
    have hitem := id_of_find hfind
    simp only [Option.bind_some, ApplyCall.update, hitem, List.contains_iff_mem]

theorem Listed.updated_unique (h : Listed call items) :
    ((call.decide items).updated.map TriageItemState.id).Nodup :=
  filterMap_ids_nodup call.request.ids_nodup fun other _ => h.mutateItem_id other

theorem Listed.updated_mem (h : Listed call items) (hnext : next ∈ (call.decide items).updated) :
    ∃ item ∈ items, item.id = next.id := by
  have hfind := (find_eq_some_iff h.updated_unique).mpr ⟨hnext, rfl⟩
  rw [h.find_updated, Option.bind_eq_some_iff] at hfind
  obtain ⟨item, hfind, hnext⟩ := hfind
  exact ⟨item, List.mem_of_find?_eq_some hfind, id_of_find hfind⟩

theorem Listed.updated_length (h : Listed call items) : (call.decide items).updated.length ≤ items.length := by
  have hsub : (call.decide items).updated.map TriageItemState.id ⊆ items.map TriageItemState.id := by
    intro id hid
    obtain ⟨next, hnext, rfl⟩ := List.mem_map.mp hid
    obtain ⟨item, hitem, hsame⟩ := h.updated_mem hnext
    exact List.mem_map.mpr ⟨item, hitem, hsame⟩
  simpa using (List.subperm_of_subset h.updated_unique hsub).length_le

theorem Listed.sortQueue (h : Listed call items) : Listed call (sortQueue items) where
  unique := ((sortBy_perm compareItems items).map _).nodup_iff.mpr h.unique
  inScope item hitem := h.inScope item ((sortBy_perm compareItems items).mem_iff.mp hitem)

end Decisions

end CrashLab.Triage
