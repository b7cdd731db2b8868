import CrashLab.CorpusMinimize

namespace CrashLab.Minimize

open OrderedMaps Sorting

open Std (ExtTreeMap)

def IsRepresentative (live : List CorpusRecord) (record : CorpusRecord) : Prop :=
  ∀ other ∈ live, behaviorKey other = behaviorKey record → record.rank ≤ other.rank

instance (live : List CorpusRecord) (record : CorpusRecord) : Decidable (IsRepresentative live record) :=
  inferInstanceAs (Decidable (∀ other ∈ live, _))

def provenanceCount (live : List CorpusRecord) (tag : String) : ℕ :=
  (live.filterMap (·.provenance)).count tag

def UniqueProvenance (live : List CorpusRecord) (record : CorpusRecord) : Prop :=
  ∃ tag ∈ record.provenance, provenanceCount live tag = 1

instance (live : List CorpusRecord) (record : CorpusRecord) : Decidable (UniqueProvenance live record) :=
  match h : record.provenance with
  | some tag => decidable_of_iff (provenanceCount live tag = 1) (by simp [UniqueProvenance, h])
  | none => isFalse (by simp [UniqueProvenance, h])

def Retained (live : List CorpusRecord) (record : CorpusRecord) : Prop :=
  IsRepresentative live record ∨ UniqueProvenance live record

instance (live : List CorpusRecord) (record : CorpusRecord) : Decidable (Retained live record) :=
  inferInstanceAs (Decidable (_ ∨ _))

def seedIds (records : List CorpusRecord) : List ℕ := records.map (·.seed.id)

def totalBytes (records : List CorpusRecord) : ℕ := (records.map (·.size)).sum

section Live

variable {store : List CorpusRecord}

theorem liveRecords_perm (store : List CorpusRecord) :
    (liveRecords store).Perm (store.filter (!·.tombstoned)) := sortByKey_perm _ _

theorem findDuplicate_eq_none_iff {records : List CorpusRecord}
    (h : records.Pairwise (·.seed.id ≤ ·.seed.id)) :
    findDuplicate records = none ↔ (seedIds records).Nodup := by
  fun_induction findDuplicate records with
  | case1 a b records heq =>
    refine iff_of_false (Option.some_ne_none _) ?_
    intro hnodup
    exact (List.nodup_cons.mp hnodup).1 (by simp [heq])
  | case2 a b records hne ih =>
    obtain ⟨ha, hrest⟩ := List.pairwise_cons.mp h
    rw [ih hrest, seedIds, seedIds, List.map_cons (l := b :: records), List.nodup_cons, iff_and_self]
    intro _ hmem
    obtain ⟨c, hc, hid⟩ := List.mem_map.mp hmem
    have hab := ha b List.mem_cons_self
    have hbc : b.seed.id ≤ c.seed.id := by
      rcases List.mem_cons.mp hc with rfl | hc
      · exact le_rfl
      · exact (List.pairwise_cons.mp hrest).1 c hc
    omega
  | case3 records hshort =>
    refine iff_of_true rfl ?_
    match records with
    | [] => exact List.nodup_nil
    | [a] => exact List.nodup_singleton _
    | a :: b :: rest => exact absurd rfl (hshort a b rest)

theorem liveRecords_sorted (store : List CorpusRecord) :
    (liveRecords store).Pairwise (·.seed.id ≤ ·.seed.id) := sortByKey_sorted _ _

end Live

section Planning

variable {live : List CorpusRecord}

theorem hasUniqueProvenance_iff {record : CorpusRecord} :
    hasUniqueProvenance (provenanceCounts live) record = true ↔ UniqueProvenance live record := by
  unfold hasUniqueProvenance UniqueProvenance
  cases record.provenance with
  | none => simp
  | some tag =>
    rw [provenanceCounts, beq_iff_eq, countBy_get]
    simp [provenanceCount]

theorem index_eq_zero_iff {key : BehaviorKey} (hnodup : (seedIds live).Nodup) {record : CorpusRecord} {index : ℕ}
    (h : (record, index) ∈ (sortByKey CorpusRecord.rank (live.filter (behaviorKey · = key))).zipIdx) :
    index = 0 ↔ IsRepresentative live record := by
  have hmem : ∀ r, r ∈ sortByKey CorpusRecord.rank (live.filter (behaviorKey · = key)) ↔
      r ∈ live ∧ behaviorKey r = key := by
    intro r
    rw [mem_sortByKey, List.mem_filter, decide_eq_true_iff]
  have hsorted := sortByKey_sorted CorpusRecord.rank (live.filter (behaviorKey · = key))
  have hids : (seedIds (sortByKey CorpusRecord.rank (live.filter (behaviorKey · = key)))).Nodup := by
    apply ((sortByKey_perm CorpusRecord.rank _).map _).nodup_iff.mpr
    exact hnodup.sublist (List.filter_sublist.map _)
  generalize sortByKey CorpusRecord.rank (live.filter (behaviorKey · = key)) = members at h hmem hsorted hids
  obtain ⟨hlt, hrecord⟩ := List.mem_zipIdx' h
  change index < members.length at hlt
  change record = members[index] at hrecord
  subst hrecord
  obtain ⟨_, hkey⟩ := (hmem _).mp (List.getElem_mem hlt)
  constructor
  · rintro rfl other hother hsame
    obtain ⟨j, hj, rfl⟩ := List.getElem_of_mem ((hmem other).mpr ⟨hother, hsame.trans hkey⟩)
    rcases Nat.eq_zero_or_pos j with rfl | hpos
    · exact le_rfl
    · exact List.pairwise_iff_getElem.mp hsorted 0 j hlt hj hpos
  · intro hsmallest
    by_contra hindex
    have hpos : 0 < members.length := by omega
    have hfirst := (hmem _).mp (List.getElem_mem hpos)
    have hle := hsmallest _ hfirst.1 (hfirst.2.trans hkey.symm)
    have hge := List.pairwise_iff_getElem.mp hsorted 0 index hpos hlt (by omega)
    have hrank := congrArg (fun r => (ofLex r).2) (le_antisymm hle hge)
    have hpos' : 0 < (seedIds members).length := by rwa [seedIds, List.length_map]
    have hlt' : index < (seedIds members).length := by rwa [seedIds, List.length_map]
    have hid : (seedIds members)[index] = (seedIds members)[0] := by
      simp only [seedIds, List.getElem_map]
      exact hrank
    exact hindex ((hids.getElem_inj_iff).mp hid)

theorem foldl_planMember {counts : ExtTreeMap String ℕ} {q : CorpusRecord → Bool}
    {entries : List (CorpusRecord × ℕ)}
    (h : ∀ entry ∈ entries, (entry.2 == 0 || hasUniqueProvenance counts entry.1) = q entry.1)
    (plan : MinimizationPlan) :
    entries.foldl (planMember counts) plan =
      { plan with
        keep := plan.keep ++ seedIds ((entries.map Prod.fst).filter q)
        remove := plan.remove ++ seedIds ((entries.map Prod.fst).filter (!q ·))
        bytesSaved := plan.bytesSaved + totalBytes ((entries.map Prod.fst).filter (!q ·)) } := by
  induction entries generalizing plan with
  | nil => simp [seedIds, totalBytes]
  | cons entry entries ih =>
    rw [List.forall_mem_cons] at h
    rw [List.foldl_cons, ih h.2, planMember, h.1, List.map_cons]
    by_cases hq : q entry.1 = true
    · simp [hq, seedIds, totalBytes]
    · simp [hq, seedIds, totalBytes, add_assoc]

def groupOf (bucket : BehaviorKey × List CorpusRecord) : BehaviorGroup :=
  ⟨bucket.1, sortByKey id (seedIds (sortByKey CorpusRecord.rank bucket.2))⟩

theorem foldl_planGroup {counts : ExtTreeMap String ℕ} {q : CorpusRecord → Bool}
    {buckets : List (BehaviorKey × List CorpusRecord)}
    (h : ∀ bucket ∈ buckets, ∀ entry ∈ (sortByKey CorpusRecord.rank bucket.2).zipIdx,
      (entry.2 == 0 || hasUniqueProvenance counts entry.1) = q entry.1)
    (plan : MinimizationPlan) :
    let members := buckets.flatMap fun bucket => sortByKey CorpusRecord.rank bucket.2
    buckets.foldl (planGroup counts) plan =
      { groups := plan.groups ++ buckets.map groupOf
        keep := plan.keep ++ seedIds (members.filter q)
        remove := plan.remove ++ seedIds (members.filter (!q ·))
        bytesSaved := plan.bytesSaved + totalBytes (members.filter (!q ·)) } := by
  induction buckets generalizing plan with
  | nil => simp [seedIds, totalBytes]
  | cons bucket buckets ih =>
    rw [List.forall_mem_cons] at h
    have hstep := foldl_planMember h.1 plan
    rw [List.zipIdx_map_fst] at hstep
    rw [List.foldl_cons, ih h.2, planGroup, hstep]
    simp [groupOf, seedIds, totalBytes, add_assoc]

theorem members_perm (live : List CorpusRecord) :
    ((groupBy compare behaviorKey live).toList.flatMap fun bucket =>
      sortByKey CorpusRecord.rank bucket.2).Perm live := by
  have hgroups : ((groupBy compare behaviorKey live).toList.flatMap (·.2)).Perm live := groupBy_flatMap_perm _ _
  refine List.Perm.trans ?_ hgroups
  exact List.Perm.flatMap_left _ fun bucket _ => sortByKey_perm _ _

def kept (live : List CorpusRecord) : List CorpusRecord := live.filter fun r => decide (Retained live r)

def dropped (live : List CorpusRecord) : List CorpusRecord := live.filter fun r => !decide (Retained live r)

def planOf (live : List CorpusRecord) : MinimizationPlan where
  groups := (groupBy compare behaviorKey live).toList.map groupOf
  keep := sortByKey id (seedIds (kept live))
  remove := sortByKey id (seedIds (dropped live))
  bytesSaved := totalBytes (dropped live)

theorem member_retained {counts : ExtTreeMap String ℕ} (hcounts : counts = provenanceCounts live)
    (hnodup : (seedIds live).Nodup) :
    ∀ bucket ∈ (groupBy compare behaviorKey live).toList,
      ∀ entry ∈ (sortByKey CorpusRecord.rank bucket.2).zipIdx,
        (entry.2 == 0 || hasUniqueProvenance counts entry.1) = decide (Retained live entry.1) := by
  rintro ⟨key, members⟩ hbucket ⟨record, index⟩ hentry
  have hmembers : members = live.filter (behaviorKey · = key) := (mem_groupBy_toList.mp hbucket).1
  rw [hmembers] at hentry
  rw [Bool.eq_iff_iff, Bool.or_eq_true, beq_iff_eq, decide_eq_true_iff, hcounts, hasUniqueProvenance_iff,
    index_eq_zero_iff hnodup hentry, Retained]

theorem planMinimization_of_nodup {store : List CorpusRecord} (h : (seedIds (liveRecords store)).Nodup) :
    planMinimization store = .ok (planOf (liveRecords store)) := by
  have hnone := (findDuplicate_eq_none_iff (liveRecords_sorted store)).mpr h
  have hplan := @foldl_planGroup _ (fun r => decide (Retained (liveRecords store) r)) _ (member_retained rfl h)
    ⟨[], [], [], 0⟩
  have hperm := members_perm (liveRecords store)
  have hids : ∀ q : CorpusRecord → Bool,
      sortByKey id (seedIds (((groupBy compare behaviorKey (liveRecords store)).toList.flatMap fun bucket =>
        sortByKey CorpusRecord.rank bucket.2).filter q)) = sortByKey id (seedIds ((liveRecords store).filter q)) :=
    fun q => sortByKey_eq_of_perm Function.injective_id ((hperm.filter q).map _)
  have hbytes := (((hperm.filter fun r => !decide (Retained (liveRecords store) r)).map (·.size)).sum_eq)
  unfold planMinimization
  simp only [hnone]
  rw [hplan]
  simp only [List.nil_append, Nat.zero_add, hids, totalBytes, hbytes]
  rfl

theorem planMinimization_ok_iff {store : List CorpusRecord} {plan : MinimizationPlan} :
    planMinimization store = .ok plan ↔
      (seedIds (liveRecords store)).Nodup ∧ plan = planOf (liveRecords store) := by
  by_cases hnodup : (seedIds (liveRecords store)).Nodup
  · rw [planMinimization_of_nodup hnodup, Except.ok.injEq]
    constructor
    · rintro rfl
      exact ⟨hnodup, rfl⟩
    · rintro ⟨_, rfl⟩
      rfl
  · refine iff_of_false ?_ fun h => hnodup h.1
    rw [← findDuplicate_eq_none_iff (liveRecords_sorted store)] at hnodup
    obtain ⟨id, hid⟩ := Option.ne_none_iff_exists'.mp hnodup
    unfold planMinimization
    simp only [hid]
    exact fun h => nomatch h

end Planning

section Applying

def isRemoved (remove : List ℕ) (record : CorpusRecord) : Bool :=
  !record.tombstoned && remove.contains record.seed.id

def tombstone (remove : List ℕ) (record : CorpusRecord) : CorpusRecord :=
  if isRemoved remove record then { record with tombstoned := true } else record

theorem foldl_applyRecord (remove : List ℕ) (store : List CorpusRecord)
    (done : List CorpusRecord × ApplyReport) :
    store.foldl (applyRecord remove) done =
      (done.1 ++ store.map (tombstone remove),
        ⟨done.2.tombstoned + (store.filter (isRemoved remove)).length,
          done.2.bytesTombstoned + totalBytes (store.filter (isRemoved remove))⟩) := by
  induction store generalizing done with
  | nil => simp [totalBytes]
  | cons record store ih =>
    rw [List.foldl_cons, ih, List.map_cons, tombstone]
    by_cases h : isRemoved remove record = true
    · have hstep : applyRecord remove done record = (done.1 ++ [{ record with tombstoned := true }],
          ⟨done.2.tombstoned + 1, done.2.bytesTombstoned + record.size⟩) := if_pos h
      rw [hstep, if_pos h, List.filter_cons_of_pos h]
      simp [totalBytes, add_assoc, add_comm 1]
    · have hstep : applyRecord remove done record = (done.1 ++ [record], done.2) := if_neg h
      rw [hstep, if_neg h, List.filter_cons_of_neg h]
      simp

theorem applyMinimization_eq (plan : MinimizationPlan) (store : List CorpusRecord) :
    applyMinimization plan store =
      (store.map (tombstone plan.remove),
        ⟨(store.filter (isRemoved plan.remove)).length, totalBytes (store.filter (isRemoved plan.remove))⟩) := by
  rw [applyMinimization, foldl_applyRecord, List.nil_append, Nat.zero_add, Nat.zero_add]

theorem isRemoved_tombstone (remove : List ℕ) (record : CorpusRecord) :
    isRemoved remove (tombstone remove record) = false := by
  unfold tombstone
  by_cases h : isRemoved remove record = true
  · rw [if_pos h]
    rfl
  · rw [if_neg h]
    exact Bool.eq_false_iff.mpr h

theorem applyMinimization_idempotent (plan : MinimizationPlan) (store : List CorpusRecord) :
    applyMinimization plan (applyMinimization plan store).1 = ((applyMinimization plan store).1, ⟨0, 0⟩) := by
  have hsame : ∀ record ∈ store.map (tombstone plan.remove), tombstone plan.remove record = record := by
    intro record hrecord
    obtain ⟨source, _, rfl⟩ := List.mem_map.mp hrecord
    exact if_neg (Bool.eq_false_iff.mp (isRemoved_tombstone _ source))
  have hnone : (store.map (tombstone plan.remove)).filter (isRemoved plan.remove) = [] := by
    apply List.filter_eq_nil_iff.mpr
    intro record hrecord
    obtain ⟨source, _, rfl⟩ := List.mem_map.mp hrecord
    exact Bool.eq_false_iff.mp (isRemoved_tombstone _ source)
  rw [applyMinimization_eq, applyMinimization_eq, hnone, List.map_congr_left hsame, List.map_id']
  rfl

theorem liveRecords_tombstone_perm (remove : List ℕ) (store : List CorpusRecord) :
    (liveRecords (store.map (tombstone remove))).Perm
      ((liveRecords store).filter fun r => !remove.contains r.seed.id) := by
  have hfilter : (store.map (tombstone remove)).filter (!·.tombstoned) =
      (store.filter (!·.tombstoned)).filter fun r => !remove.contains r.seed.id := by
    rw [List.filter_map, List.filter_filter]
    have hlive : ∀ r : CorpusRecord, ((!·.tombstoned) ∘ tombstone remove) r =
        (!remove.contains r.seed.id && !r.tombstoned) := by
      intro r
      rw [Function.comp_apply, tombstone, isRemoved]
      cases htombstoned : r.tombstoned <;> cases hremove : remove.contains r.seed.id <;> simp_all
    rw [funext hlive]
    apply (List.map_congr_left _).trans (List.map_id _)
    intro r hr
    have hkeep := (List.mem_filter.mp hr).2
    rw [Bool.and_eq_true, Bool.not_eq_true'] at hkeep
    exact if_neg (by rw [isRemoved, hkeep.1, Bool.and_false]; exact Bool.false_ne_true)
  refine (liveRecords_perm _).trans ?_
  rw [hfilter]
  exact ((liveRecords_perm store).filter _).symm

end Applying

section Plan

variable {store : List CorpusRecord} {plan : MinimizationPlan}

theorem remove_contains {live : List CorpusRecord} (hnodup : (seedIds live).Nodup) {record : CorpusRecord}
    (h : record ∈ live) : (planOf live).remove.contains record.seed.id = !decide (Retained live record) := by
  rw [Bool.eq_iff_iff, List.contains_iff_mem, planOf, mem_sortByKey, seedIds, List.mem_map, Bool.not_eq_true',
    decide_eq_false_iff_not]
  constructor
  · rintro ⟨other, hother, hid⟩
    obtain ⟨hmem, hdropped⟩ := List.mem_filter.mp hother
    rw [← List.inj_on_of_nodup_map hnodup hmem h hid]
    simpa using hdropped
  · intro hdropped
    exact ⟨record, List.mem_filter.mpr ⟨h, by simpa using hdropped⟩, rfl⟩

theorem liveRecords_apply_perm (h : planMinimization store = .ok plan) :
    (liveRecords (applyMinimization plan store).1).Perm (kept (liveRecords store)) := by
  obtain ⟨hnodup, rfl⟩ := planMinimization_ok_iff.mp h
  rw [applyMinimization_eq]
  refine (liveRecords_tombstone_perm _ _).trans ?_
  rw [kept, List.filter_congr (fun r hr => by rw [remove_contains hnodup hr, Bool.not_not])]

theorem mem_live_apply (h : planMinimization store = .ok plan) {record : CorpusRecord} :
    record ∈ liveRecords (applyMinimization plan store).1 ↔
      record ∈ liveRecords store ∧ Retained (liveRecords store) record := by
  rw [(liveRecords_apply_perm h).mem_iff, kept, List.mem_filter, decide_eq_true_iff]

theorem plan_partitions (h : planMinimization store = .ok plan) :
    (plan.keep ++ plan.remove).Perm (seedIds (liveRecords store)) ∧ (plan.keep ++ plan.remove).Nodup := by
  obtain ⟨hnodup, rfl⟩ := planMinimization_ok_iff.mp h
  have hperm : ((planOf (liveRecords store)).keep ++ (planOf (liveRecords store)).remove).Perm
      (seedIds (liveRecords store)) := by
    refine ((sortByKey_perm id _).append (sortByKey_perm id _)).trans ?_
    rw [seedIds, seedIds, ← List.map_append]
    exact (List.filter_append_perm _ _).map _
  exact ⟨hperm, hperm.nodup_iff.mpr hnodup⟩

theorem exists_representative {live : List CorpusRecord} {record : CorpusRecord} (h : record ∈ live) :
    ∃ smallest ∈ live, behaviorKey smallest = behaviorKey record ∧ IsRepresentative live smallest := by
  have hmem : ∀ r, r ∈ live.filter (behaviorKey · = behaviorKey record) ↔
      r ∈ live ∧ behaviorKey r = behaviorKey record := by
    intro r
    rw [List.mem_filter, decide_eq_true_iff]
  cases hmin : (live.filter (behaviorKey · = behaviorKey record)).argmin CorpusRecord.rank with
  | none =>
    rw [List.argmin_eq_none] at hmin
    exact absurd ((hmem record).mpr ⟨h, rfl⟩) (by rw [hmin]; exact List.not_mem_nil)
  | some smallest =>
    obtain ⟨hlive, hkey⟩ := (hmem smallest).mp (List.argmin_mem hmin)
    refine ⟨smallest, hlive, hkey, ?_⟩
    intro other hother hsame
    exact List.le_of_mem_argmin ((hmem other).mpr ⟨hother, hsame.trans hkey⟩) hmin

theorem bytesSaved_eq (h : planMinimization store = .ok plan) :
    plan.bytesSaved = totalBytes ((liveRecords store).filter fun r => plan.remove.contains r.seed.id) := by
  obtain ⟨hnodup, rfl⟩ := planMinimization_ok_iff.mp h
  rw [List.filter_congr fun r hr => remove_contains hnodup hr]
  rfl

theorem bytesTombstoned_eq (remove : List ℕ) (store : List CorpusRecord) :
    totalBytes (store.filter (isRemoved remove)) =
      totalBytes ((liveRecords store).filter fun r => remove.contains r.seed.id) := by
  have hperm := (liveRecords_perm store).filter fun r => remove.contains r.seed.id
  rw [totalBytes, totalBytes, (hperm.map _).sum_eq, List.filter_filter]
  congr 3
  funext r
  rw [isRemoved, Bool.and_comm]

theorem provenanceCount_kept_le (live : List CorpusRecord) (tag : String) :
    provenanceCount (kept live) tag ≤ provenanceCount live tag :=
  (List.filter_sublist.filterMap _).count_le tag

theorem retained_of_perm_kept {live after : List CorpusRecord} (hperm : after.Perm (kept live))
    {record : CorpusRecord} (h : record ∈ after) : Retained after record := by
  obtain ⟨hlive, hretained⟩ := List.mem_filter.mp (hperm.mem_iff.mp h)
  rcases decide_eq_true_iff.mp hretained with hsmallest | ⟨tag, htag, hcount⟩
  · left
    intro other hother hsame
    exact hsmallest other (List.mem_filter.mp (hperm.mem_iff.mp hother)).1 hsame
  · right
    refine ⟨tag, htag, ?_⟩
    have hle := provenanceCount_kept_le live tag
    have heq : provenanceCount after tag = provenanceCount (kept live) tag := (hperm.filterMap _).count_eq tag
    have hpos : 0 < provenanceCount after tag := List.count_pos_iff.mpr (List.mem_filterMap.mpr ⟨record, h, htag⟩)
    omega

theorem replan_removes_nothing (h : planMinimization store = .ok plan) :
    ∃ replan, planMinimization (applyMinimization plan store).1 = .ok replan ∧ replan.remove = [] ∧
      replan.bytesSaved = 0 := by
  have hperm := liveRecords_apply_perm h
  obtain ⟨hnodup, _⟩ := planMinimization_ok_iff.mp h
  have hnodup' : (seedIds (liveRecords (applyMinimization plan store).1)).Nodup :=
    (hperm.map _).nodup_iff.mpr (hnodup.sublist (List.filter_sublist.map _))
  have hnone : dropped (liveRecords (applyMinimization plan store).1) = [] := by
    apply List.filter_eq_nil_iff.mpr
    intro record hrecord
    rw [decide_eq_true (retained_of_perm_kept hperm hrecord)]
    exact Bool.false_ne_true
  refine ⟨_, planMinimization_of_nodup hnodup', ?_, ?_⟩
  · rw [planOf, hnone]
    rfl
  · rw [planOf, hnone]
    rfl

theorem minimization_contract (h : planMinimization store = .ok plan) :
    let live := liveRecords store
    let applied := applyMinimization plan store
    ((plan.keep ++ plan.remove).Perm (seedIds live) ∧ (plan.keep ++ plan.remove).Nodup) ∧
      (∀ record ∈ live, ∃ smallest ∈ live, behaviorKey smallest = behaviorKey record ∧
        (∀ other ∈ live, behaviorKey other = behaviorKey record → smallest.rank ≤ other.rank) ∧
        smallest ∈ liveRecords applied.1) ∧
      (plan.bytesSaved = totalBytes (live.filter fun r => plan.remove.contains r.seed.id) ∧
        applied.2.bytesTombstoned = plan.bytesSaved) ∧
      applyMinimization plan applied.1 = (applied.1, ⟨0, 0⟩) ∧
      ∃ replan, planMinimization applied.1 = .ok replan ∧ replan.remove = [] ∧ replan.bytesSaved = 0 := by
  refine ⟨plan_partitions h, ?_, ⟨bytesSaved_eq h, ?_⟩, applyMinimization_idempotent plan store,
    replan_removes_nothing h⟩
  · intro record hrecord
    obtain ⟨smallest, hlive, hkey, hsmallest⟩ := exists_representative hrecord
    refine ⟨smallest, hlive, hkey, ?_, (mem_live_apply h).mpr ⟨hlive, Or.inl hsmallest⟩⟩
    intro other hother hsame
    exact hsmallest other hother (hsame.trans hkey.symm)
  · rw [applyMinimization_eq, bytesSaved_eq h]
    exact bytesTombstoned_eq plan.remove store

def sampleRecord (id : ℕ) (payload : List UInt8) (tag : Option String) : CorpusRecord where
  seed := ⟨id, payload⟩
  provenance := tag
  observedSignature := some ⟨"runtime-failure", 0, 42⟩
  tombstoned := false

def sharedTagStore : List CorpusRecord :=
  [sampleRecord 1 [1] none, sampleRecord 2 [1, 1] (some "import-x"), sampleRecord 3 [1, 1, 1] (some "import-x")]

def sharedTagPlan : MinimizationPlan where
  groups := [⟨⟨"runtime-failure", some 42⟩, [1, 2, 3]⟩]
  keep := [1]
  remove := [2, 3]
  bytesSaved := 5

theorem sharedTagPlan_eq : planMinimization sharedTagStore = .ok sharedTagPlan := by decide +kernel

theorem minimization_contract_shared_tag :
    applyMinimization sharedTagPlan (applyMinimization sharedTagPlan sharedTagStore).1 =
      ((applyMinimization sharedTagPlan sharedTagStore).1, ⟨0, 0⟩) :=
  (minimization_contract sharedTagPlan_eq).2.2.2.1

theorem provenance_survives_iff (h : planMinimization store = .ok plan) (tag : String) :
    (∃ record ∈ liveRecords (applyMinimization plan store).1, record.provenance = some tag) ↔
      provenanceCount (liveRecords store) tag = 1 ∨
        ∃ record ∈ liveRecords store, record.provenance = some tag ∧
          ∀ other ∈ liveRecords store, behaviorKey other = behaviorKey record → record.rank ≤ other.rank := by
  constructor
  · rintro ⟨record, hrecord, htag⟩
    obtain ⟨hlive, hsmallest | ⟨unique, hunique, hcount⟩⟩ := (mem_live_apply h).mp hrecord
    · exact Or.inr ⟨record, hlive, htag, hsmallest⟩
    · left
      rw [Option.mem_def, htag, Option.some_inj] at hunique
      rw [hunique]
      exact hcount
  · rintro (hcount | ⟨record, hlive, htag, hsmallest⟩)
    · have hcarried : 0 < provenanceCount (liveRecords store) tag := by omega
      obtain ⟨record, hlive, htag⟩ := List.mem_filterMap.mp (List.count_pos_iff.mp hcarried)
      exact ⟨record, (mem_live_apply h).mpr ⟨hlive, Or.inr ⟨tag, htag, hcount⟩⟩, htag⟩
    · exact ⟨record, (mem_live_apply h).mpr ⟨hlive, Or.inl hsmallest⟩, htag⟩

theorem provenance_survives_iff_shared_tag :
    (∃ record ∈ liveRecords (applyMinimization sharedTagPlan sharedTagStore).1, record.provenance = some "import-x") ↔
      provenanceCount (liveRecords sharedTagStore) "import-x" = 1 ∨
        ∃ record ∈ liveRecords sharedTagStore, record.provenance = some "import-x" ∧
          ∀ other ∈ liveRecords sharedTagStore, behaviorKey other = behaviorKey record → record.rank ≤ other.rank :=
  provenance_survives_iff sharedTagPlan_eq "import-x"

theorem shared_tag_is_lost :
    ¬∀ (store : List CorpusRecord) (plan : MinimizationPlan), planMinimization store = .ok plan →
      ∀ tag, (∃ record ∈ liveRecords store, record.provenance = some tag) →
        ∃ record ∈ liveRecords (applyMinimization plan store).1, record.provenance = some tag := by
  intro h
  have hcarried : ∃ record ∈ liveRecords sharedTagStore, record.provenance = some "import-x" := by decide +kernel
  have hlost : ¬∃ record ∈ liveRecords (applyMinimization sharedTagPlan sharedTagStore).1,
      record.provenance = some "import-x" := by decide +kernel
  exact hlost (h _ _ sharedTagPlan_eq "import-x" hcarried)

end Plan

end CrashLab.Minimize
