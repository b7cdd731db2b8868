import CrashLab.TriageStore

namespace CrashLab.Triage

open JsStrings Fallible

section Transitions

variable {item : TriageItemState} {input : TriageMutationInput} {status : TriageStatus} {assignee : Option JsString}
  {priority : TriagePriority}

theorem canTransition_self (status : TriageStatus) : canTransition status status = true := by
  simp [canTransition]

theorem moveTo_some {wanted : TriageStatus} (h : moveTo item (some wanted) = .ok status) :
    canTransition item.status status = true ∧ wanted = status := by
  rw [moveTo] at h
  split_ifs at h with hlegal
  cases h
  exact ⟨hlegal, rfl⟩

theorem Accepted.legal (h : Accepted item input status assignee priority) : canTransition item.status status = true := by
  obtain ⟨wanted, -, hstatus⟩ := h.status
  cases wanted with
  | none =>
    cases hstatus
    exact canTransition_self _
  | some wanted => exact (moveTo_some hstatus).1

theorem Accepted.again (h : Accepted item input status assignee priority) (now : JsString) :
    Accepted (moved item input status assignee priority) { input with now } status assignee priority where
  asked := h.asked
  status := by
    obtain ⟨wanted, hwanted, hstatus⟩ := h.status
    refine ⟨wanted, hwanted, ?_⟩
    cases wanted with
    | none => rfl
    | some wanted =>
      obtain ⟨-, rfl⟩ := moveTo_some hstatus
      exact if_pos (canTransition_self wanted)
  assignee := by
    have hassignee := h.assignee
    unfold nextAssignee at hassignee ⊢
    cases hwanted : input.assignee with
    | none => rfl
    | some wanted =>
      rw [hwanted] at hassignee
      cases wanted with
      | none => exact hassignee
      | some value => exact hassignee
  priority := by
    have hpriority := h.priority
    unfold nextPriority at hpriority ⊢
    cases hwanted : input.priority with
    | none => rfl
    | some wanted =>
      rw [hwanted] at hpriority
      exact hpriority

theorem Accepted.again_unmoved (h : Accepted item input status assignee priority) (now : JsString) :
    updatedItem (transitionTriageItem (moved item input status assignee priority) { input with now }) = none := by
  have hfields : movedFields (moved item input status assignee priority) status assignee priority = [] :=
    movedFields_eq_nil.mpr ⟨rfl, rfl, rfl⟩
  rw [transition_of_accepted (h.again now), if_pos hfields]
  rfl

theorem unmoved_again (h : updatedItem (transitionTriageItem item input) = none) (now : JsString) :
    updatedItem (transitionTriageItem item { input with now }) = none := by
  cases hagain : updatedItem (transitionTriageItem item { input with now }) with
  | none => rfl
  | some next =>
    obtain ⟨status, assignee, priority, haccepted, hfields, -⟩ := updatedItem_eq_some.mp hagain
    have hbefore : Accepted item input status assignee priority :=
      ⟨haccepted.asked, haccepted.status, haccepted.assignee, haccepted.priority⟩
    rw [updatedItem_eq_some.mpr ⟨status, assignee, priority, hbefore, hfields, rfl⟩] at h
    cases h

end Transitions

section Batches

variable {items : List TriageItemState} {request : BulkTriageRequest} {clock id : JsString}

theorem sorted_perm {ids : List JsString} {f g h : JsString → Option JsString}
    (hone : ∀ id ∈ ids, (f id = some id ∧ g id = none ∧ h id = none) ∨ (f id = none ∧ g id = some id ∧ h id = none) ∨
      (f id = none ∧ g id = none ∧ h id = some id)) :
    (ids.filterMap f ++ ids.filterMap g ++ ids.filterMap h).Perm ids := by
  induction ids with
  | nil => exact List.Perm.refl _
  | cons id ids ih =>
    rw [List.forall_mem_cons] at hone
    have hrest := ih hone.2
    rcases hone.1 with ⟨hf, hg, hh⟩ | ⟨hf, hg, hh⟩ | ⟨hf, hg, hh⟩
    · rw [List.filterMap_cons_some hf, List.filterMap_cons_none hg, List.filterMap_cons_none hh]
      exact hrest.cons id
    · rw [List.filterMap_cons_none hf, List.filterMap_cons_some hg, List.filterMap_cons_none hh, List.append_assoc]
      rw [List.append_assoc] at hrest
      exact List.perm_middle.trans (hrest.cons id)
    · rw [List.filterMap_cons_none hf, List.filterMap_cons_none hg, List.filterMap_cons_some hh]
      exact List.perm_middle.trans (hrest.cons id)

theorem replaceFirst_eq_map {next : TriageItemState} (unique : (items.map TriageItemState.id).Nodup) :
    replaceFirst next items = items.map fun item => if item.id = next.id then next else item := by
  induction items with
  | nil => rfl
  | cons item items ih =>
    rw [List.map_cons, List.nodup_cons] at unique
    rw [replaceFirst, List.map_cons]
    split_ifs with hid
    · have hrest : items.map (fun item => if item.id = next.id then next else item) = items := by
        conv_rhs => rw [← List.map_id items]
        apply List.map_congr_left
        intro other hother
        apply if_neg
        intro hsame
        exact unique.1 (List.mem_map.mpr ⟨other, hother, hsame.trans hid.symm⟩)
      rw [hrest]
    · rw [ih unique.2]

theorem stored_eq {updated : List TriageItemState} (unique : (items.map TriageItemState.id).Nodup)
    (distinct : (updated.map TriageItemState.id).Nodup) :
    updated.foldl (fun items next => replaceFirst next items) items =
      items.map fun item => (find item.id updated).getD item := by
  induction updated generalizing items with
  | nil => exact (List.map_id items).symm
  | cons next updated ih =>
    rw [List.map_cons, List.nodup_cons] at distinct
    have hids : (items.map fun item => if item.id = next.id then next else item).map TriageItemState.id =
        items.map TriageItemState.id := by
      rw [List.map_map]
      apply List.map_congr_left
      intro item _
      dsimp only [Function.comp_apply]
      split_ifs with hid
      · exact hid.symm
      · rfl
    rw [List.foldl_cons, replaceFirst_eq_map unique, ih (by rwa [hids]) distinct.2, List.map_map]
    apply List.map_congr_left
    intro item _
    dsimp only [Function.comp_apply]
    by_cases hid : item.id = next.id
    · have habsent : find next.id updated = none := by
        rw [find_eq_none]
        intro other hother hsame
        exact distinct.1 (List.mem_map.mpr ⟨other, hother, hsame⟩)
      rw [if_pos hid, habsent, find, List.find?_cons_of_pos (by simpa using hid.symm)]
      rfl
    · rw [if_neg hid, find, find, List.find?_cons_of_neg (by simpa using Ne.symm hid)]

theorem mutateItem_eq (unique : (items.map TriageItemState.id).Nodup) : mutateItem items request clock id =
    match find id items with
    | none => .error ⟨.notFound, ofString "No triage item with id " ++ id ++ ofString "."⟩
    | some item =>
      if request.orgId.any (· ≠ item.orgId) then
        .error ⟨.forbidden, ofString "That item belongs to another organisation."⟩
      else transitionTriageItem item (request.input clock) := by
  cases hfind : find id items with
  | none => simp only [mutateItem, itemById_eq unique, hfind]
  | some item => simp only [mutateItem, itemById_eq unique, hfind]

theorem updatedItem_mutateItem (unique : (items.map TriageItemState.id).Nodup) {next : TriageItemState} :
    updatedItem (mutateItem items request clock id) = some next ↔ ∃ item, find id items = some item ∧
      request.orgId.any (· ≠ item.orgId) = false ∧
        updatedItem (transitionTriageItem item (request.input clock)) = some next := by
  rw [mutateItem_eq unique]
  cases hfind : find id items with
  | none => simp [updatedItem]
  | some item =>
    dsimp only
    cases hforeign : request.orgId.any (· ≠ item.orgId) with
    | false =>
      rw [if_neg Bool.false_ne_true]
      constructor
      · exact fun h => ⟨item, rfl, hforeign, h⟩
      · rintro ⟨found, heq, -, h⟩
        cases heq
        exact h
    | true =>
      rw [if_pos rfl]
      constructor
      · exact fun h => nomatch h
      · rintro ⟨found, heq, hsame, -⟩
        cases heq
        rw [hforeign] at hsame
        cases hsame

theorem updatedItem_id (unique : (items.map TriageItemState.id).Nodup) {next : TriageItemState}
    (h : updatedItem (mutateItem items request clock id) = some next) : next.id = id := by
  obtain ⟨item, hfind, -, hnext⟩ := (updatedItem_mutateItem unique).mp h
  rw [(updatedItem_transition hnext).1, id_of_find hfind]

theorem mutateItem_of_foreign (unique : (items.map TriageItemState.id).Nodup) {item : TriageItemState}
    (hfind : find id items = some item) (hforeign : request.orgId.any (· ≠ item.orgId) = true) :
    mutateItem items request clock id = .error ⟨.forbidden, ofString "That item belongs to another organisation."⟩ := by
  rw [mutateItem_eq unique, hfind]
  exact if_pos hforeign

theorem mutateItem_of_own (unique : (items.map TriageItemState.id).Nodup) {item : TriageItemState}
    (hfind : find id items = some item) (hown : request.orgId.any (· ≠ item.orgId) = false) :
    mutateItem items request clock id = transitionTriageItem item (request.input clock) := by
  rw [mutateItem_eq unique, hfind]
  exact if_neg (by rw [hown]; exact Bool.false_ne_true)

theorem transition_fails_iff {item : TriageItemState} {input : TriageMutationInput} :
    (transitionTriageItem item input).isOk = false ↔
      ∀ status assignee priority, ¬Accepted item input status assignee priority := by
  constructor
  · intro hfails status assignee priority haccepted
    rw [transition_of_accepted haccepted] at hfails
    cases hfails
  · intro hnone
    cases htransition : transitionTriageItem item input with
    | error error => rfl
    | ok transition =>
      obtain ⟨status, assignee, priority, haccepted⟩ := accepted_of_transition htransition
      exact absurd haccepted (hnone status assignee priority)

theorem mutateItem_fails (unique : (items.map TriageItemState.id).Nodup) :
    (mutateItem items request clock id).isOk = false ↔ ∀ item, find id items = some item →
      request.orgId.any (· ≠ item.orgId) = true ∨
        ∀ status assignee priority, ¬Accepted item (request.input clock) status assignee priority := by
  cases hfind : find id items with
  | none =>
    rw [mutateItem_eq unique, hfind]
    simp [Except.isOk, Except.toBool]
  | some item =>
    simp only [Option.some.injEq, forall_eq']
    cases hown : request.orgId.any (· ≠ item.orgId) with
    | true =>
      rw [mutateItem_of_foreign unique hfind hown]
      simp [Except.isOk, Except.toBool]
    | false =>
      rw [mutateItem_of_own unique hfind hown, transition_fails_iff]
      simp

theorem unchangedItem_mutateItem (unique : (items.map TriageItemState.id).Nodup) {item : TriageItemState} :
    unchangedItem (mutateItem items request clock id) = some item ↔ find id items = some item ∧
      request.orgId.any (· ≠ item.orgId) = false ∧
        Accepted item (request.input clock) item.status item.assignee item.priority := by
  constructor
  · intro h
    cases hfind : find id items with
    | none =>
      rw [mutateItem_eq unique, hfind] at h
      cases h
    | some found =>
      cases hown : request.orgId.any (· ≠ found.orgId) with
      | true =>
        rw [mutateItem_of_foreign unique hfind hown] at h
        cases h
      | false =>
        rw [mutateItem_of_own unique hfind hown] at h
        cases htransition : transitionTriageItem found (request.input clock) with
        | error error =>
          rw [htransition] at h
          cases h
        | ok transition =>
          obtain ⟨status, assignee, priority, haccepted⟩ := accepted_of_transition htransition
          rw [transition_of_accepted haccepted] at h
          by_cases hfields : movedFields found status assignee priority = []
          · rw [if_pos hfields] at h
            cases h
            obtain ⟨rfl, rfl, rfl⟩ := movedFields_eq_nil.mp hfields
            exact ⟨rfl, hown, haccepted⟩
          · rw [if_neg hfields] at h
            cases h
  · rintro ⟨hfind, hown, haccepted⟩
    rw [mutateItem_of_own unique hfind hown, transition_of_accepted haccepted,
      if_pos (movedFields_eq_nil.mpr ⟨rfl, rfl, rfl⟩)]
    rfl

theorem unchangedItem_id (unique : (items.map TriageItemState.id).Nodup) {item : TriageItemState}
    (h : unchangedItem (mutateItem items request clock id) = some item) : item.id = id :=
  id_of_find ((unchangedItem_mutateItem unique).mp h).1

variable (items request clock)

theorem outcomes_perm (unique : (items.map TriageItemState.id).Nodup) :
    ((applyBulkTriage items request clock).updated.map TriageItemState.id ++
      (applyBulkTriage items request clock).unchanged.map TriageItemState.id ++
      (applyBulkTriage items request clock).failed.map BulkTriageFailure.id).Perm request.ids := by
  unfold applyBulkTriage
  simp only [List.map_filterMap]
  apply sorted_perm
  intro id _
  cases houtcome : mutateItem items request clock id with
  | error error => exact .inr (.inr ⟨rfl, rfl, rfl⟩)
  | ok transition =>
    cases hchanged : transition.changed with
    | true =>
      have hupdated : updatedItem (mutateItem items request clock id) = some transition.item := by
        rw [houtcome, updatedItem, hchanged]
        rfl
      refine .inl ⟨?_, ?_, rfl⟩
      · rw [← houtcome, hupdated, Option.map_some, updatedItem_id unique hupdated]
      · simp [unchangedItem, hchanged]
    | false =>
      have hunchanged : unchangedItem (mutateItem items request clock id) = some transition.item := by
        rw [houtcome, unchangedItem, hchanged]
        rfl
      refine .inr (.inl ⟨?_, ?_, rfl⟩)
      · simp [updatedItem, hchanged]
      · rw [← houtcome, hunchanged, Option.map_some, unchangedItem_id unique hunchanged]

variable {items request clock}

theorem auditOf_updated (unique : (items.map TriageItemState.id).Nodup) {next : TriageItemState}
    (h : updatedItem (mutateItem items request clock id) = some next) : ∃ item record, find id items = some item ∧
      next.version = item.version + 1 ∧ canTransition item.status next.status = true ∧
      auditOf request id (mutateItem items request clock id) = some record ∧
      record.before = snapshotOf item ∧ record.after = snapshotOf next := by
  obtain ⟨item, hfind, hown, hnext⟩ := (updatedItem_mutateItem unique).mp h
  obtain ⟨status, assignee, priority, haccepted, hfields, rfl⟩ := updatedItem_eq_some.mp hnext
  have houtcome : mutateItem items request clock id = transitionTriageItem item (request.input clock) := by
    rw [mutateItem_eq unique, hfind]
    exact if_neg (by rw [hown]; decide)
  rw [houtcome, transition_of_accepted haccepted, if_neg hfields]
  exact ⟨item, _, hfind, rfl, haccepted.legal, rfl, rfl, rfl⟩

theorem auditOf_itemId {outcome : Except TriageError TriageTransition} {record : TriageAuditRecord}
    (h : auditOf request id outcome = some record) : record.itemId = id := by
  cases outcome with
  | error error => cases h
  | ok transition =>
    by_cases hchanged : transition.changed = true
    · rw [auditOf, if_pos hchanged] at h
      cases h
      rfl
    · rw [auditOf, if_neg hchanged] at h
      cases h

theorem filter_filterMap {α : Type} {ids : List JsString} {f : JsString → Option α} {key : α → JsString}
    (unique : ids.Nodup) (keeps : ∀ other a, f other = some a → key a = other) (hid : id ∈ ids) {a : α}
    (ha : f id = some a) : (ids.filterMap f).filter (fun a => key a = id) = [a] := by
  induction ids with
  | nil => cases hid
  | cons other ids ih =>
    rw [List.nodup_cons] at unique
    by_cases hother : other = id
    · subst hother
      have hrest : (ids.filterMap f).filter (fun a => key a = other) = [] := by
        rw [List.filter_eq_nil_iff]
        intro b hb hkey
        obtain ⟨later, hlater, hlb⟩ := List.mem_filterMap.mp hb
        rw [decide_eq_true_eq, keeps later b hlb] at hkey
        exact unique.1 (hkey ▸ hlater)
      rw [List.filterMap_cons_some ha, List.filter_cons_of_pos (by simpa using keeps other a ha), hrest]
    · have hmem : id ∈ ids := (List.mem_cons.mp hid).resolve_left (Ne.symm hother)
      cases hf : f other with
      | none => rw [List.filterMap_cons_none hf, ih unique.2 hmem]
      | some b =>
        rw [List.filterMap_cons_some hf, List.filter_cons_of_neg (by simpa [keeps other b hf] using hother),
          ih unique.2 hmem]

theorem updated_ids_nodup (unique : (items.map TriageItemState.id).Nodup) :
    ((applyBulkTriage items request clock).updated.map TriageItemState.id).Nodup :=
  filterMap_ids_nodup request.ids_nodup fun _ _ => updatedItem_id unique

theorem items_after (unique : (items.map TriageItemState.id).Nodup) : (applyBulkTriage items request clock).items =
    items.map fun item => (find item.id (applyBulkTriage items request clock).updated).getD item :=
  stored_eq unique (updated_ids_nodup unique)

theorem find_updated (unique : (items.map TriageItemState.id).Nodup) :
    find id (applyBulkTriage items request clock).updated =
      if id ∈ request.ids then updatedItem (mutateItem items request clock id) else none :=
  find_filterMap fun _ _ => updatedItem_id unique

theorem find_map_kept {f : TriageItemState → TriageItemState} (hf : ∀ item, (f item).id = item.id) :
    find id (items.map f) = (find id items).map f := by
  rw [find, List.find?_map]
  congr 2
  funext item
  exact congrArg (fun i => decide (i = id)) (hf item)

theorem kept_id {updated : List TriageItemState} (item : TriageItemState) : ((find item.id updated).getD item).id = item.id := by
  cases hfind : find item.id updated with
  | none => rfl
  | some next => exact id_of_find hfind

theorem items_after_nodup (unique : (items.map TriageItemState.id).Nodup) :
    ((applyBulkTriage items request clock).items.map TriageItemState.id).Nodup := by
  rw [items_after unique, List.map_map]
  have hids : TriageItemState.id ∘ (fun item => (find item.id (applyBulkTriage items request clock).updated).getD item) =
      TriageItemState.id := funext kept_id
  rwa [hids]

theorem updated_again (unique : (items.map TriageItemState.id).Nodup) (clock' : JsString) :
    (applyBulkTriage (applyBulkTriage items request clock).items request clock').updated = [] := by
  change request.ids.filterMap (fun id => updatedItem (mutateItem _ request clock' id)) = []
  rw [List.filterMap_eq_nil_iff]
  intro id hid
  by_contra hmoved
  obtain ⟨next, hnext⟩ := Option.ne_none_iff_exists'.mp hmoved
  obtain ⟨item', hfind', hown, hnext⟩ := (updatedItem_mutateItem (items_after_nodup unique)).mp hnext
  rw [items_after unique, find_map_kept kept_id] at hfind'
  obtain ⟨item, hfind, rfl⟩ := Option.map_eq_some_iff.mp hfind'
  rw [id_of_find hfind, find_updated unique, if_pos hid] at hown hnext
  cases hfirst : updatedItem (mutateItem items request clock id) with
  | none =>
    rw [hfirst] at hown hnext
    have hleft : updatedItem (transitionTriageItem item (request.input clock)) = none := by
      by_contra hsome
      obtain ⟨moved, hmoved⟩ := Option.ne_none_iff_exists'.mp hsome
      rw [(updatedItem_mutateItem unique).mpr ⟨item, hfind, hown, hmoved⟩] at hfirst
      cases hfirst
    have hagain := unmoved_again hleft (request.now.getD clock')
    cases hagain.symm.trans hnext
  | some moved =>
    rw [hfirst] at hnext
    obtain ⟨item', hfind', -, hmoved⟩ := (updatedItem_mutateItem unique).mp hfirst
    obtain rfl : item = item' := Option.some_inj.mp (hfind.symm.trans hfind')
    obtain ⟨status, assignee, priority, haccepted, -, rfl⟩ := updatedItem_eq_some.mp hmoved
    have hagain := haccepted.again_unmoved (request.now.getD clock')
    cases hagain.symm.trans hnext

structure Reached (items : List TriageItemState) (request : BulkTriageRequest) (item : TriageItemState) : Prop where
  present : item ∈ items
  requested : item.id ∈ request.ids
  own : request.orgId.any (· ≠ item.orgId) = false

structure Exact (items : List TriageItemState) (request : BulkTriageRequest) (clock : JsString)
    (result : BulkTriageResult) : Prop where
  /-- The requested ids are distinct, so each is in one of the three lists. -/
  partition : (result.updated.map TriageItemState.id ++ result.unchanged.map TriageItemState.id ++
    result.failed.map BulkTriageFailure.id).Perm request.ids
  updated : ∀ next, next ∈ result.updated ↔ ∃ item, Reached items request item ∧ ∃ status assignee priority,
    Accepted item (request.input clock) status assignee priority ∧
      ¬(status = item.status ∧ assignee = item.assignee ∧ priority = item.priority) ∧
      next = moved item (request.input clock) status assignee priority
  unchanged : ∀ item, item ∈ result.unchanged ↔ Reached items request item ∧
    Accepted item (request.input clock) item.status item.assignee item.priority
  failed : ∀ id, id ∈ result.failed.map BulkTriageFailure.id ↔ id ∈ request.ids ∧
    ∀ item ∈ items, item.id = id → request.orgId.any (· ≠ item.orgId) = true ∨
      ∀ status assignee priority, ¬Accepted item (request.input clock) status assignee priority
  untouched : List.Forall₂ (fun item item' => item'.id = item.id ∧ (item.id ∉ request.ids → item' = item) ∧
    (item.id ∉ result.updated.map TriageItemState.id → item' = item)) items result.items
  stored : ∀ next ∈ result.updated, next ∈ result.items
  changed : ∀ next ∈ result.updated, ∃ item ∈ items, item.id = next.id ∧ next.version = item.version + 1 ∧
    canTransition item.status next.status = true ∧ ∃ record,
      result.audit.filter (fun record => record.itemId = next.id) = [record] ∧
      record.before = snapshotOf item ∧ record.after = snapshotOf next
  audited : result.audit.map TriageAuditRecord.itemId = result.updated.map TriageItemState.id

theorem audit_ids (unique : (items.map TriageItemState.id).Nodup) :
    (applyBulkTriage items request clock).audit.map TriageAuditRecord.itemId =
      (applyBulkTriage items request clock).updated.map TriageItemState.id := by
  unfold applyBulkTriage
  simp only [List.map_filterMap]
  apply List.filterMap_congr
  intro id _
  cases houtcome : mutateItem items request clock id with
  | error error => rfl
  | ok transition =>
    by_cases hchanged : transition.changed = true
    · have hupdated : updatedItem (mutateItem items request clock id) = some transition.item := by
        rw [houtcome]
        exact if_pos hchanged
      rw [auditOf, if_pos hchanged, updatedItem, if_pos hchanged, Option.map_some, Option.map_some,
        updatedItem_id unique hupdated]
    · rw [auditOf, if_neg hchanged, updatedItem, if_neg hchanged]
      rfl

theorem Reached.find (h : Reached items request item) (unique : (items.map TriageItemState.id).Nodup) :
    find item.id items = some item := (find_eq_some_iff unique).mpr ⟨h.present, rfl⟩

theorem mem_updated (unique : (items.map TriageItemState.id).Nodup) {next : TriageItemState} :
    next ∈ (applyBulkTriage items request clock).updated ↔ ∃ item, Reached items request item ∧
      ∃ status assignee priority, Accepted item (request.input clock) status assignee priority ∧
        ¬(status = item.status ∧ assignee = item.assignee ∧ priority = item.priority) ∧
        next = moved item (request.input clock) status assignee priority := by
  constructor
  · intro hnext
    obtain ⟨id, hid, houtcome⟩ := List.mem_filterMap.mp hnext
    obtain ⟨item, hfind, hown, hmoved⟩ := (updatedItem_mutateItem unique).mp houtcome
    obtain ⟨hitem, rfl⟩ := (find_eq_some_iff unique).mp hfind
    obtain ⟨status, assignee, priority, haccepted, hfields, hnext⟩ := updatedItem_eq_some.mp hmoved
    exact ⟨item, ⟨hitem, hid, hown⟩, status, assignee, priority, haccepted, mt movedFields_eq_nil.mpr hfields, hnext⟩
  · rintro ⟨item, hreached, status, assignee, priority, haccepted, hmoved, hnext⟩
    refine List.mem_filterMap.mpr ⟨item.id, hreached.requested, (updatedItem_mutateItem unique).mpr ?_⟩
    exact ⟨item, hreached.find unique, hreached.own, updatedItem_eq_some.mpr
      ⟨status, assignee, priority, haccepted, mt movedFields_eq_nil.mp hmoved, hnext⟩⟩

theorem mem_unchanged (unique : (items.map TriageItemState.id).Nodup) {item : TriageItemState} :
    item ∈ (applyBulkTriage items request clock).unchanged ↔ Reached items request item ∧
      Accepted item (request.input clock) item.status item.assignee item.priority := by
  constructor
  · intro hitem
    obtain ⟨id, hid, houtcome⟩ := List.mem_filterMap.mp hitem
    obtain ⟨hfind, hown, haccepted⟩ := (unchangedItem_mutateItem unique).mp houtcome
    obtain ⟨hpresent, rfl⟩ := (find_eq_some_iff unique).mp hfind
    exact ⟨⟨hpresent, hid, hown⟩, haccepted⟩
  · rintro ⟨hreached, haccepted⟩
    refine List.mem_filterMap.mpr ⟨item.id, hreached.requested, (unchangedItem_mutateItem unique).mpr ?_⟩
    exact ⟨hreached.find unique, hreached.own, haccepted⟩

theorem mem_failed (unique : (items.map TriageItemState.id).Nodup) :
    id ∈ (applyBulkTriage items request clock).failed.map BulkTriageFailure.id ↔ id ∈ request.ids ∧
      ∀ item ∈ items, item.id = id → request.orgId.any (· ≠ item.orgId) = true ∨
        ∀ status assignee priority, ¬Accepted item (request.input clock) status assignee priority := by
  have hids : (applyBulkTriage items request clock).failed.map BulkTriageFailure.id =
      request.ids.filter fun id => (mutateItem items request clock id).isOk = false := by
    unfold applyBulkTriage
    rw [List.map_filterMap, ← List.filterMap_eq_filter]
    apply List.filterMap_congr
    intro id _
    cases houtcome : mutateItem items request clock id with
    | error error => simp [Option.guard, houtcome, failureOf, Except.isOk, Except.toBool]
    | ok transition => simp [Option.guard, houtcome, failureOf, Except.isOk, Except.toBool]
  rw [hids, List.mem_filter, decide_eq_true_eq]
  apply and_congr_right
  intro _
  rw [mutateItem_fails unique]
  constructor
  · intro h item hitem hid
    exact h item ((find_eq_some_iff unique).mpr ⟨hitem, hid⟩)
  · intro h item hfind
    obtain ⟨hitem, hid⟩ := (find_eq_some_iff unique).mp hfind
    exact h item hitem hid

theorem exact_applyBulkTriage (unique : (items.map TriageItemState.id).Nodup) :
    Exact items request clock (applyBulkTriage items request clock) where
  partition := outcomes_perm items request clock unique
  updated _ := mem_updated unique
  unchanged _ := mem_unchanged unique
  failed _ := mem_failed unique
  untouched := by
    rw [items_after unique, List.forall₂_map_right_iff]
    apply List.forall₂_same.mpr
    intro item _
    refine ⟨kept_id item, fun hid => ?_, fun hid => ?_⟩
    · rw [find_updated unique, if_neg hid]
      rfl
    · have habsent : find item.id (applyBulkTriage items request clock).updated = none := by
        rw [find_eq_none]
        intro next hnext hsame
        exact hid (List.mem_map.mpr ⟨next, hnext, hsame⟩)
      rw [habsent]
      rfl
  stored := by
    intro next hnext
    obtain ⟨id, hid, houtcome⟩ := List.mem_filterMap.mp hnext
    obtain ⟨item, hfind, -, -⟩ := (updatedItem_mutateItem unique).mp houtcome
    rw [items_after unique]
    refine List.mem_map.mpr ⟨item, List.mem_of_find?_eq_some hfind, ?_⟩
    rw [id_of_find hfind, find_updated unique, if_pos hid, houtcome]
    rfl
  changed := by
    intro next hnext
    obtain ⟨id, hid, houtcome⟩ := List.mem_filterMap.mp hnext
    obtain ⟨item, record, hfind, hversion, hlegal, hrecord, hbefore, hafter⟩ := auditOf_updated unique houtcome
    have hnextId := updatedItem_id unique houtcome
    refine ⟨item, List.mem_of_find?_eq_some hfind, (id_of_find hfind).trans hnextId.symm, hversion, hlegal, record, ?_,
      hbefore, hafter⟩
    rw [hnextId]
    exact filter_filterMap request.ids_nodup (fun _ _ => auditOf_itemId) hid hrecord
  audited := audit_ids unique

theorem bulk_exact_and_idempotent (unique : (items.map TriageItemState.id).Nodup) (request : BulkTriageRequest)
    (clock clock' : JsString) : Exact items request clock (applyBulkTriage items request clock) ∧
      (applyBulkTriage (applyBulkTriage items request clock).items request clock').updated = [] :=
  ⟨exact_applyBulkTriage unique, updated_again unique clock'⟩

def queuedItem : TriageItemState where
  id := ofString "crash-7"
  orgId := ofString "org"
  signature := ofString "sig"
  failureClass := ofString "auth"
  severity := .high
  occurrences := 2
  status := .new
  priority := .p2
  version := 1
  updatedAt := ofString "2026-01-01T00:00:00.000Z"

def takeRequest : BulkTriageRequest where
  ids := [ofString "crash-7", ofString "crash-8"]
  ids_nodup := by decide +kernel
  status := some (ofString "triaged")
  assignee := some (some (ofString " alice "))
  actor := ofString "bob"
  now := some (ofString "2026-01-02T00:00:00.000Z")

theorem takeRequest_exact :
    (applyBulkTriage [queuedItem] takeRequest []).updated = [{ queuedItem with
      status := .triaged
      assignee := some (ofString "alice")
      version := 2
      updatedAt := ofString "2026-01-02T00:00:00.000Z"
      updatedBy := some (ofString "bob") }] ∧
    (applyBulkTriage [queuedItem] takeRequest []).failed.map BulkTriageFailure.id = [ofString "crash-8"] ∧
    Exact [queuedItem] takeRequest [] (applyBulkTriage [queuedItem] takeRequest []) ∧
    (applyBulkTriage (applyBulkTriage [queuedItem] takeRequest []).items takeRequest []).updated = [] := by
  have hqueue : ([queuedItem].map TriageItemState.id).Nodup := List.nodup_singleton _
  refine ⟨by decide +kernel, by decide +kernel, ?_⟩
  exact bulk_exact_and_idempotent hqueue takeRequest [] []

end Batches

end CrashLab.Triage
