import CrashLab.TriageStore

namespace CrashLab.Triage

open JsStrings Comparators Histories ReadWriteCells

section Phases

structure Reading (store : TriageRecords) (call : ApplyCall) (left : List JsString) (read : List TriageItemState) :
    Prop where
  unique : (read.map TriageItemState.id ++ left).Nodup
  left_listed : ∀ id ∈ left, id ∈ store.ids
  read_listed : ∀ item ∈ read, item.id ∈ store.ids
  inScope : ∀ item ∈ read, call.request.orgId.any (· ≠ item.orgId) = false

structure Writing (store : TriageRecords) (left : List TriageItemState) (result : BulkTriageResult) : Prop where
  unique : (left.map TriageItemState.id).Nodup
  listed : ∀ item ∈ left, item.id ∈ store.ids
  reported : (result.updated.map TriageItemState.id).Nodup

def Regular (store : TriageRecords) (call : ApplyCall) : Phase → Prop
  | .listing => True
  | .reading left read => Reading store call left read
  | .writing _ left result => Writing store left result
  | .indexing _ written left result => Writing store (written :: left) result
  | .done _ result => Writing store [] result

def seenItem (store : TriageRecords) (call : ApplyCall) (id : JsString) (seen : Option TriageRecord) :
    Option TriageItemState :=
  if store.ids.contains id then listedItem call.request.orgId seen else none

def change (store : TriageRecords) (call : ApplyCall) (id : JsString) (seen : Option TriageRecord) :
    Option (Option TriageRecord) :=
  ((seenItem store call id seen).bind call.update).map fun next => some (.item next)

structure Decided (store : TriageRecords) (call : ApplyCall) (id : JsString) (items left : List TriageItemState)
    (result : BulkTriageResult) (seen : Option TriageRecord) (stage : Stage (Option TriageRecord)) : Prop where
  read : find id items = seenItem store call id seen
  reported : (find id result.updated).map (fun next => some (TriageRecord.item next)) = change store call id seen
  stage : (stage = .loaded seen ∧ ∃ next, find id left = some next ∧ change store call id seen = some (some (.item next))) ∨
    (stage = .settled seen ∧ find id left = none)

def Follows (store : TriageRecords) (call : ApplyCall) (id : JsString) : Phase → Stage (Option TriageRecord) → Prop
  | .listing, stage => stage = .fresh
  | .reading left read, stage =>
    (id ∈ left ∧ stage = .fresh) ∨
      (id ∉ left ∧ ∃ seen, stage = .loaded seen ∧ find id read = seenItem store call id seen)
  | .writing items left result, stage => ∃ seen, Decided store call id items left result seen stage
  | .indexing items _ left result, stage => ∃ seen, Decided store call id items left result seen stage
  | .done items result, stage => ∃ seen, Decided store call id items [] result seen stage

theorem seenItem_eq (store : TriageRecords) (call : ApplyCall) (id : JsString) (seen : Option TriageRecord) :
    seenItem store call id seen = if id ∈ store.ids then listedItem call.request.orgId seen else none := by
  simp only [seenItem, List.contains_iff_mem]

variable {store : TriageRecords} {call : ApplyCall} {id : JsString} {left : List JsString}
variable {read items remaining : List TriageItemState} {result : BulkTriageResult} {seen : Option TriageRecord}
variable {stage : Stage (Option TriageRecord)}

theorem ids_nodup (store : TriageRecords) : store.ids.Nodup := store.index_nodup.sublist (List.take_sublist _ _)

theorem Reading.listed (h : Reading store call left read) : Listed call read where
  unique := h.unique.of_append_left
  inScope := h.inScope

theorem Reading.read_length (h : Reading store call left read) : read.length ≤ maxItems := by
  have hsub : read.map TriageItemState.id ⊆ store.ids := by
    intro id hid
    obtain ⟨item, hitem, rfl⟩ := List.mem_map.mp hid
    exact h.read_listed item hitem
  have hlength := (List.subperm_of_subset h.listed.unique hsub).length_le
  rw [List.length_map] at hlength
  exact hlength.trans (List.length_take_le ..)

theorem regular_writeOn (h : Writing store remaining result) : Regular store call (writeOn items remaining result) := by
  unfold writeOn
  split_ifs with hleft
  · subst hleft
    exact h
  · exact h

theorem follows_writeOn (h : Decided store call id items remaining result seen stage) :
    Follows store call id (writeOn items remaining result) stage := by
  unfold writeOn
  split_ifs with hleft
  · subst hleft
    exact ⟨seen, h⟩
  · exact ⟨seen, h⟩

theorem Reading.decided (h : Reading store call [] read) :
    (call.decide (sortQueue read)).updated.take maxItems = (call.decide (sortQueue read)).updated := by
  apply List.take_of_length_le
  apply h.listed.sortQueue.updated_length.trans
  rw [sortQueue, (sortBy_perm _ _).length_eq]
  exact h.read_length

theorem regular_readOn (h : Reading store call left read) : Regular store call (readOn call left read) := by
  unfold readOn
  split_ifs with hleft
  · subst hleft
    apply regular_writeOn
    rw [h.decided]
    refine ⟨h.listed.sortQueue.updated_unique, fun next hnext => ?_, h.listed.sortQueue.updated_unique⟩
    obtain ⟨item, hitem, hsame⟩ := h.listed.sortQueue.updated_mem hnext
    rw [← hsame]
    exact h.read_listed item ((sortBy_perm _ _).mem_iff.mp hitem)
  · exact h

theorem follows_readOn (h : Reading store call left read)
    (hstage : (id ∈ left ∧ stage = .fresh) ∨
      (id ∉ left ∧ ∃ seen, stage = .loaded seen ∧ find id read = seenItem store call id seen)) :
    Follows store call id (readOn call left read) stage ∨
      ∃ seen, stage = .loaded seen ∧ change store call id seen = none ∧
        Follows store call id (readOn call left read) (.settled seen) := by
  unfold readOn
  split_ifs with hleft
  · subst hleft
    obtain ⟨hid, -⟩ | ⟨-, seen, rfl, hread⟩ := hstage
    · cases hid
    · have hitems : find id (sortQueue read) = seenItem store call id seen :=
        (find_perm h.listed.unique (sortBy_perm _ _)).trans hread
      have hreported : (find id (call.decide (sortQueue read)).updated).map
          (fun next => some (TriageRecord.item next)) = change store call id seen := by
        rw [h.listed.sortQueue.find_updated, hitems]
        rfl
      dsimp only
      rw [h.decided]
      cases hupdated : find id (call.decide (sortQueue read)).updated with
      | none =>
        rw [hupdated] at hreported
        refine .inr ⟨seen, rfl, hreported.symm, follows_writeOn ⟨hitems, ?_, .inr ⟨rfl, hupdated⟩⟩⟩
        rw [hupdated]
        exact hreported
      | some next =>
        rw [hupdated] at hreported
        refine .inl (follows_writeOn ⟨hitems, ?_, .inl ⟨rfl, next, hupdated, hreported.symm⟩⟩)
        rw [hupdated]
        exact hreported
  · exact .inl hstage

theorem listedItem_eq_some {orgId : Option JsString} {record : Option TriageRecord} {item : TriageItemState} :
    listedItem orgId record = some item ↔
      record = some (.item item) ∧ orgId.any (· ≠ item.orgId) = false := by
  constructor
  · intro h
    cases record with
    | none => cases h
    | some record =>
      cases record with
      | corrupt => cases h
      | item other =>
        unfold listedItem at h
        dsimp only at h
        by_cases horg : orgId.any (· ≠ other.orgId) = true
        · rw [if_pos horg] at h
          cases h
        · rw [if_neg horg] at h
          cases h
          exact ⟨rfl, Bool.eq_false_of_not_eq_true horg⟩
  · rintro ⟨rfl, horg⟩
    unfold listedItem
    dsimp only
    rw [horg]
    rfl

theorem change_eq_some {next : Option TriageRecord} (h : change store call id seen = some next) :
    ∃ item update, seenItem store call id seen = some item ∧ seen = some (.item item) ∧
      call.update item = some update ∧ next = some (.item update) := by
  unfold change at h
  rw [Option.map_eq_some_iff] at h
  obtain ⟨update, hupdate, rfl⟩ := h
  rw [Option.bind_eq_some_iff] at hupdate
  obtain ⟨item, hseen, hupdate⟩ := hupdate
  refine ⟨item, update, hseen, ?_, hupdate, rfl⟩
  rw [seenItem_eq] at hseen
  split_ifs at hseen with hid
  exact (listedItem_eq_some.mp hseen).1

end Phases

section Turns

variable {store current current' : TriageRecords} {call : ApplyCall} {id : JsString} {phase phase' : Phase}
variable {stage : Stage (Option TriageRecord)}

theorem ids_eq (hindex : current.index = store.index) : current.ids = store.ids := by
  unfold TriageRecords.ids
  rw [hindex]

theorem addToIndex_index {written : JsString} (hwritten : written ∈ store.ids) (hindex : current.index = store.index) :
    (current.addToIndex written).index = store.index := by
  have hmem : written ∈ current.index := hindex ▸ List.mem_of_mem_take hwritten
  change (if _ then _ else _) = _
  rw [if_pos hmem, hindex]

theorem reading_start (store : TriageRecords) (call : ApplyCall) : Reading store call store.ids [] where
  unique := ids_nodup store
  left_listed _ hid := hid
  read_listed := nofun
  inScope := nofun

theorem listedItem_id {orgId : Option JsString} {item : TriageItemState}
    (h : listedItem orgId (current.records id) = some item) : item.id = id :=
  current.keyed id item (listedItem_eq_some.mp h).1

theorem Reading.next {other : JsString} {left : List JsString} {read : List TriageItemState}
    (h : Reading store call (other :: left) read) :
    Reading store call left (read ++ (listedItem call.request.orgId (current.records other)).toList) := by
  cases hitem : listedItem call.request.orgId (current.records other) with
  | none =>
    rw [Option.toList_none, List.append_nil]
    exact ⟨h.unique.sublist ((List.sublist_cons_self _ _).append_left _),
      fun id hid => h.left_listed id (List.mem_cons_of_mem _ hid), h.read_listed, h.inScope⟩
  | some item =>
    have hother := listedItem_id hitem
    rw [Option.toList_some]
    refine ⟨?_, fun id hid => h.left_listed id (List.mem_cons_of_mem _ hid), fun seen hseen => ?_, fun seen hseen => ?_⟩
    · rw [List.map_append, List.append_assoc]
      change (read.map TriageItemState.id ++ item.id :: left).Nodup
      rw [hother]
      exact h.unique
    · rw [List.mem_append, List.mem_singleton] at hseen
      obtain hseen | rfl := hseen
      · exact h.read_listed seen hseen
      · rw [hother]
        exact h.left_listed other List.mem_cons_self
    · rw [List.mem_append, List.mem_singleton] at hseen
      obtain hseen | rfl := hseen
      · exact h.inScope seen hseen
      · exact (listedItem_eq_some.mp hitem).2

theorem Writing.tail {item : TriageItemState} {left : List TriageItemState} {result : BulkTriageResult}
    (h : Writing store (item :: left) result) : Writing store left result where
  unique := (List.nodup_cons.mp h.unique).2
  listed seen hseen := h.listed seen (List.mem_cons_of_mem _ hseen)
  reported := h.reported

theorem Writing.head_absent {item : TriageItemState} {left : List TriageItemState} {result : BulkTriageResult}
    (h : Writing store (item :: left) result) : find item.id left = none := by
  rw [find_eq_none]
  intro other hother hsame
  exact (List.nodup_cons.mp h.unique).1 (List.mem_map.mpr ⟨other, hother, hsame⟩)

theorem Regular.next (h : Regular store call phase) (hindex : current.index = store.index)
    (hnext : phase.next call current = some (phase', current')) :
    Regular store call phase' ∧ current'.index = store.index := by
  cases phase with
  | listing =>
    cases hnext
    rw [ids_eq hindex]
    exact ⟨regular_readOn (reading_start store call), hindex⟩
  | reading left read =>
    cases left with
    | nil => cases hnext
    | cons other left =>
      cases hnext
      exact ⟨regular_readOn (Reading.next h), hindex⟩
  | writing items left result =>
    cases left with
    | nil => cases hnext
    | cons item left =>
      cases hnext
      exact ⟨h, hindex⟩
  | indexing items written left result =>
    cases hnext
    exact ⟨regular_writeOn (Writing.tail h), addToIndex_index (h.listed written List.mem_cons_self) hindex⟩
  | done items result => cases hnext

theorem Follows.next (h : Follows store call id phase stage) (hregular : Regular store call phase)
    (hindex : current.index = store.index) (hnext : phase.next call current = some (phase', current')) :
    ((∀ items item left result, phase = .writing items (item :: left) result → item.id ≠ id) ∧
        current'.records id = current.records id ∧
        ∃ stage', Follows store call id phase' stage' ∧ Quiet (change store call id) (current.records id) stage stage') ∨
      ∃ items item left result, phase = .writing items (item :: left) result ∧ item.id = id ∧
        ∃ seen, stage = .loaded seen ∧ (find id items).map TriageRecord.item = seen ∧
          change store call id seen = some (current'.records id) ∧ Follows store call id phase' (.settled seen) := by
  cases phase with
  | listing =>
    cases hnext
    rw [ids_eq hindex]
    refine .inl ⟨fun _ _ _ _ h => (by cases h), rfl, ?_⟩
    cases h
    by_cases hid : id ∈ store.ids
    · obtain hfollows | ⟨seen, hloaded, -⟩ := follows_readOn (reading_start store call) (.inl ⟨hid, rfl⟩)
      · exact ⟨_, hfollows, .stay _⟩
      · cases hloaded
    · have hread : find id [] = seenItem store call id (current.records id) := by
        rw [seenItem_eq, if_neg hid]
        rfl
      obtain hfollows | ⟨seen, hloaded, hnone, hfollows⟩ :=
        follows_readOn (reading_start store call) (.inr ⟨hid, _, rfl, hread⟩)
      · exact ⟨_, hfollows, .load⟩
      · cases hloaded
        exact ⟨_, hfollows, .skip hnone⟩
  | reading left read =>
    cases left with
    | nil => cases hnext
    | cons other left =>
      cases hnext
      refine .inl ⟨fun _ _ _ _ h => (by cases h), rfl, ?_⟩
      have hreading : Reading store call left
          (read ++ (listedItem call.request.orgId (current.records other)).toList) := Reading.next hregular
      have hother : other ∈ store.ids := hregular.left_listed other List.mem_cons_self
      have habsent : other ∉ left ∧ find other read = none := by
        have hunique := List.nodup_middle.mp hregular.unique
        rw [List.nodup_cons, List.mem_append, not_or] at hunique
        refine ⟨hunique.1.2, find_eq_none.mpr fun item hitem hsame => hunique.1.1 ?_⟩
        exact List.mem_map.mpr ⟨item, hitem, hsame⟩
      by_cases hid : id = other
      · subst hid
        obtain ⟨-, rfl⟩ | ⟨hmem, -⟩ := h
        · have hread : find id (read ++ (listedItem call.request.orgId (current.records id)).toList) =
              seenItem store call id (current.records id) := by
            rw [find_append, habsent.2, Option.none_or, seenItem_eq, if_pos hother]
            cases hitem : listedItem call.request.orgId (current.records id) with
            | none => rfl
            | some item => simp [find, listedItem_id hitem]
          obtain hfollows | ⟨seen, hloaded, hnone, hfollows⟩ :=
            follows_readOn hreading (.inr ⟨habsent.1, _, rfl, hread⟩)
          · exact ⟨_, hfollows, .load⟩
          · cases hloaded
            exact ⟨_, hfollows, .skip hnone⟩
        · exact absurd List.mem_cons_self hmem
      · have hread : find id (read ++ (listedItem call.request.orgId (current.records other)).toList) =
            find id read := by
          have hlast : find id (listedItem call.request.orgId (current.records other)).toList = none := by
            rw [find_eq_none]
            intro item hitem hsame
            rw [Option.mem_toList] at hitem
            exact hid (hsame.symm.trans (listedItem_id hitem))
          rw [find_append, hlast, Option.or_none]
        have hstage : (id ∈ left ∧ stage = .fresh) ∨ (id ∉ left ∧ ∃ seen, stage = .loaded seen ∧
            find id (read ++ (listedItem call.request.orgId (current.records other)).toList) =
              seenItem store call id seen) := by
          obtain ⟨hmem, hfresh⟩ | ⟨hmem, hloaded⟩ := h
          · exact .inl ⟨(List.mem_cons.mp hmem).resolve_left hid, hfresh⟩
          · rw [hread]
            exact .inr ⟨fun hleft => hmem (List.mem_cons_of_mem _ hleft), hloaded⟩
        obtain hfollows | ⟨seen, rfl, hnone, hfollows⟩ := follows_readOn hreading hstage
        · exact ⟨_, hfollows, .stay _⟩
        · exact ⟨_, hfollows, .settle seen hnone⟩
  | writing items left result =>
    cases left with
    | nil => cases hnext
    | cons item left =>
      cases hnext
      obtain ⟨seen, hdecided⟩ := h
      by_cases hid : item.id = id
      · subst hid
        have hfind : find item.id (item :: left) = some item := List.find?_cons_of_pos (by simp)
        obtain ⟨hloaded, next, hleft, hchange⟩ | ⟨-, hleft⟩ := hdecided.stage
        · rw [hfind] at hleft
          cases hleft
          refine .inr ⟨items, item, left, result, rfl, rfl, seen, hloaded, ?_, ?_, seen, hdecided.read,
            hdecided.reported, .inr ⟨rfl, hregular.head_absent⟩⟩
          · obtain ⟨before, update, hseen, rfl, -⟩ := change_eq_some hchange
            rw [hdecided.read, hseen]
            rfl
          · rw [hchange]
            exact congrArg some (Function.update_self item.id (some (TriageRecord.item item)) current.records).symm
        · rw [hfind] at hleft
          cases hleft
      · refine .inl ⟨fun _ _ _ _ heq => ?_, Function.update_of_ne (Ne.symm hid) .., stage, ⟨seen, ?_⟩, .stay _⟩
        · cases heq
          exact hid
        · have hfind : find id (item :: left) = find id left := List.find?_cons_of_neg (by simpa using hid)
          exact ⟨hdecided.read, hdecided.reported, hfind ▸ hdecided.stage⟩
  | indexing items written left result =>
    cases hnext
    obtain ⟨seen, hdecided⟩ := h
    exact .inl ⟨fun _ _ _ _ h => (by cases h), rfl, stage, follows_writeOn hdecided, .stay _⟩
  | done items result => cases hnext

end Turns

end CrashLab.Triage
