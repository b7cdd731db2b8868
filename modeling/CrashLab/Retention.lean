import Mathlib.Data.String.Basic
import CrashLab.BundlePersist
import CrashLab.Marks
import CrashLab.OrderedMaps
import CrashLab.Rankings

namespace CrashLab.Retention

open BundlePersist Marks OrderDual OrderedMaps Rankings Sorting
open Std (ExtTreeMap LawfulEqOrd)

structure RetentionRecord (T : Type) where
  artifact : T
  createdAt : ℤ

inductive ArtifactClass where
  | bundle
  | trace
  | rawSeed
  | raw
  | aggregatedStats
  | audit
deriving DecidableEq, Repr

theorem ArtifactClass.ctorIdx_injective : Function.Injective ArtifactClass.ctorIdx := by
  intro a b h
  cases a <;> cases b <;> first | rfl | exact absurd h (by decide)

instance : LinearOrder ArtifactClass := LinearOrder.lift' ArtifactClass.ctorIdx ArtifactClass.ctorIdx_injective

instance : LawfulEqOrd ArtifactClass := ⟨compare_eq_iff_eq.mp⟩

structure ClassPolicy where
  ttl : Option ℤ
  minCount : ℕ

structure ClassPolicies where
  bundle : ClassPolicy
  trace : ClassPolicy
  rawSeed : ClassPolicy
  raw : ClassPolicy
  aggregatedStats : ClassPolicy
  audit : ClassPolicy

def ClassPolicies.forClass (policies : ClassPolicies) : ArtifactClass → ClassPolicy
  | .bundle => policies.bundle
  | .trace => policies.trace
  | .rawSeed => policies.rawSeed
  | .raw => policies.raw
  | .aggregatedStats => policies.aggregatedStats
  | .audit => policies.audit

structure Pin where
  artifactClass : ArtifactClass
  id : String
  reason : String

structure SweepCandidate where
  artifactClass : ArtifactClass
  id : String
  createdAt : ℤ

inductive SweepAction where
  | keep
  | markExpired
deriving DecidableEq, Repr

structure SweepPlanEntry where
  artifactClass : ArtifactClass
  id : String
  action : SweepAction
  reason : String
deriving DecidableEq, Repr

structure SweepPlan where
  entries : List SweepPlanEntry

structure RetentionPolicy where
  maxFailureBundles : ℕ
  failureRetentionWindow : Option ℤ
  keepLatestFailures : ℕ
  classPolicies : ClassPolicies
  pins : List Pin

def withinWindow (createdAt now : ℤ) : Option ℤ → Bool
  | some window => now - createdAt ≤ window
  | none => true

section TrimToLimit

variable {n : ℕ} (ranked : List (Fin n)) (limit pinned : ℕ)

def trimLoop : List (Fin n) → ℕ → Vector Bool n → Vector Bool n
  | [], _, keep => keep
  | i :: rest, kept, keep =>
    if kept ≤ limit then keep
    else if keep[i] && !(ranked.take pinned).contains i then trimLoop rest (kept - 1) (keep.set i false)
    else trimLoop rest kept keep

def trimToLimit (keep : Vector Bool n) : Vector Bool n :=
  let kept := keep.toList.countP id
  if kept ≤ limit then keep else trimLoop ranked limit pinned ranked.reverse kept keep

end TrimToLimit

section FailureBundles

variable {Environment Envelope : Type}

def newestBundle (bundles : List (RetentionRecord (CaseBundleDocument Environment Envelope)))
    (i : Fin bundles.length) : ℤᵒᵈ ×ₗ ℕᵒᵈ :=
  toLex (toDual bundles[i].createdAt, toDual bundles[i].artifact.seed.id)

def RetentionPolicy.retainFailureBundleRecords (policy : RetentionPolicy)
    (bundles : List (RetentionRecord (CaseBundleDocument Environment Envelope))) (now : ℤ) :
    Vector Bool bundles.length :=
  if policy.maxFailureBundles = 0 ∨ bundles.isEmpty then Vector.replicate bundles.length false
  else
    let ranked := sortByKey (newestBundle bundles) (List.finRange bundles.length)
    let pinned := min (min policy.keepLatestFailures policy.maxFailureBundles) ranked.length
    let keep := (ranked.take pinned).foldl (fun keep i => keep.set i true) (Vector.replicate bundles.length false)
    let keep := (ranked.drop pinned).foldl
      (fun keep i =>
        if withinWindow bundles[i].createdAt now policy.failureRetentionWindow then keep.set i true else keep) keep
    trimToLimit ranked policy.maxFailureBundles pinned keep

end FailureBundles

section Sweep

variable (policy : RetentionPolicy) (candidates : List SweepCandidate)

def RetentionPolicy.isPinned (artifactClass : ArtifactClass) (id : String) : Option Pin :=
  policy.pins.find? fun pin => pin.artifactClass = artifactClass ∧ pin.id = id

def byClass : ExtTreeMap ArtifactClass (List (Fin candidates.length)) compare :=
  groupBy compare (fun i => candidates[i].artifactClass) (List.finRange candidates.length)

abbrev ClassOrder := {groups : List (ArtifactClass × List (Fin candidates.length)) //
  groups.Perm (byClass candidates).toList}

variable {candidates} in
def newestCandidate (i : Fin candidates.length) : ℤᵒᵈ ×ₗ Stringᵒᵈ :=
  toLex (toDual candidates[i].createdAt, toDual candidates[i].id)

def planEntry (now : ℤ) (artifactClass : ArtifactClass) (candidate : SweepCandidate) (rank : ℕ) : SweepPlanEntry :=
  let classPolicy := policy.classPolicies.forClass artifactClass
  match policy.isPinned artifactClass candidate.id with
  | some pin => ⟨artifactClass, candidate.id, .keep, "pinned: " ++ pin.reason⟩
  | none =>
    if rank < classPolicy.minCount then
      ⟨artifactClass, candidate.id, .keep, "min-count floor (" ++ toString classPolicy.minCount ++ ")"⟩
    else if withinWindow candidate.createdAt now classPolicy.ttl then
      ⟨artifactClass, candidate.id, .keep, "within ttl"⟩
    else ⟨artifactClass, candidate.id, .markExpired, "past ttl"⟩

def planClass (now : ℤ) (decisions : Vector (Option SweepPlanEntry) candidates.length)
    (group : ArtifactClass × List (Fin candidates.length)) : Vector (Option SweepPlanEntry) candidates.length :=
  (sortByKey newestCandidate group.2).zipIdx.foldl
    (fun decisions ranked =>
      decisions.set ranked.1 (some (planEntry policy now group.1 candidates[ranked.1] ranked.2)))
    decisions

def RetentionPolicy.planSweep (now : ℤ) (groups : ClassOrder candidates) : SweepPlan :=
  let decisions := groups.val.foldl (planClass policy candidates now) (Vector.replicate candidates.length none)
  ⟨decisions.toList.reduceOption⟩

end Sweep

variable (policy : RetentionPolicy) (candidates : List SweepCandidate) (now : ℤ)

section Decisions

def ofClass (c : ArtifactClass) : List (Fin candidates.length) :=
  (List.finRange candidates.length).filter fun i => candidates[i].artifactClass = c

def newerInClass (i : Fin candidates.length) : ℕ :=
  (List.finRange candidates.length).countP fun j =>
    Before newestCandidate j i ∧ candidates[j].artifactClass = candidates[i].artifactClass

def entryOf (i : Fin candidates.length) : SweepPlanEntry :=
  planEntry policy now candidates[i].artifactClass candidates[i] (newerInClass candidates i)

variable {candidates}

theorem mem_ofClass {c : ArtifactClass} {i : Fin candidates.length} :
    i ∈ ofClass candidates c ↔ candidates[i].artifactClass = c := by
  rw [ofClass, List.mem_filter, decide_eq_true_iff]
  exact and_iff_right (List.mem_finRange i)

theorem ofClass_pairwise_lt (c : ArtifactClass) : (ofClass candidates c).Pairwise (· < ·) :=
  (List.pairwise_lt_finRange _).filter _

theorem newerInClass_eq_rankIn {c : ArtifactClass} {i : Fin candidates.length} (h : candidates[i].artifactClass = c) :
    newerInClass candidates i = rankIn newestCandidate (ofClass candidates c) i := by
  subst h
  rw [rankIn, ofClass, List.countP_filter, newerInClass]
  apply List.countP_congr
  intro j _
  rw [Bool.and_eq_true, decide_eq_true_iff, decide_eq_true_iff, decide_eq_true_iff]

theorem planClass_get {c : ArtifactClass} (decisions : Vector (Option SweepPlanEntry) candidates.length)
    (i : Fin candidates.length) :
    (planClass policy candidates now decisions (c, ofClass candidates c))[i] =
      if candidates[i].artifactClass = c then some (entryOf policy candidates now i) else decisions[i] := by
  have hnodup : (((sortByKey newestCandidate (ofClass candidates c)).zipIdx).map Prod.fst).Nodup := by
    rw [List.zipIdx_map_fst]
    exact (sortByKey_perm _ _).nodup_iff.mpr ((ofClass_pairwise_lt c).imp ne_of_lt)
  rw [planClass]
  split_ifs with hc
  · have hmem : (i, newerInClass candidates i) ∈ (sortByKey newestCandidate (ofClass candidates c)).zipIdx := by
      rw [mem_zipIdx_sortByKey_iff (ofClass_pairwise_lt c)]
      exact ⟨mem_ofClass.mpr hc, (newerInClass_eq_rankIn hc).symm⟩
    have hset := getElem_foldl_set Prod.fst
      (fun ranked => some (planEntry policy now c candidates[ranked.1] ranked.2)) hnodup (v := decisions) hmem
    rw [hset, entryOf, hc]
  · apply getElem_foldl_set_of_not_mem Prod.fst
    rw [List.zipIdx_map_fst, mem_sortByKey, mem_ofClass]
    exact hc

theorem foldl_planClass_get {groups : List (ArtifactClass × List (Fin candidates.length))}
    (h : ∀ group ∈ groups, group.2 = ofClass candidates group.1)
    (decisions : Vector (Option SweepPlanEntry) candidates.length) (i : Fin candidates.length) :
    (groups.foldl (planClass policy candidates now) decisions)[i] =
      if candidates[i].artifactClass ∈ groups.map Prod.fst then some (entryOf policy candidates now i)
      else decisions[i] := by
  induction groups generalizing decisions with
  | nil => simp
  | cons group groups ih =>
    obtain ⟨c, indices⟩ := group
    rw [List.forall_mem_cons] at h
    obtain ⟨hgroup, hrest⟩ := h
    simp only at hgroup
    subst hgroup
    rw [List.foldl_cons, ih hrest, planClass_get]
    by_cases hmem : candidates[i].artifactClass ∈ groups.map Prod.fst
    · rw [List.map_cons, if_pos hmem, if_pos (List.mem_cons_of_mem _ hmem)]
    · rw [if_neg hmem, List.map_cons]
      simp only [List.mem_cons, hmem, or_false]

theorem planSweep_entries (groups : ClassOrder candidates) :
    (policy.planSweep candidates now groups).entries =
      (List.finRange candidates.length).map (entryOf policy candidates now) := by
  have hgroups : ∀ group, group ∈ groups.val ↔ group.2 = ofClass candidates group.1 ∧ group.2 ≠ [] := by
    intro group
    rw [groups.property.mem_iff, byClass, mem_groupBy_toList, ofClass]
  have hevery : ∀ i : Fin candidates.length, candidates[i].artifactClass ∈ groups.val.map Prod.fst := by
    intro i
    rw [List.mem_map]
    refine ⟨(candidates[i].artifactClass, ofClass candidates candidates[i].artifactClass), ?_, rfl⟩
    rw [hgroups]
    exact ⟨rfl, List.ne_nil_of_mem (mem_ofClass.mpr rfl)⟩
  rw [RetentionPolicy.planSweep, toList_eq_map_finRange]
  simp only [foldl_planClass_get policy now fun group hgroup => ((hgroups group).mp hgroup).1, hevery, if_true]
  delta List.reduceOption
  rw [List.filterMap_map]
  exact congrFun List.filterMap_eq_map _

end Decisions

section Plan

variable {candidates}

theorem planEntry_expired_iff {c : ArtifactClass} {candidate : SweepCandidate} {rank : ℕ} :
    (planEntry policy now c candidate rank).action = .markExpired ↔
      policy.isPinned c candidate.id = none ∧
        (∃ ttl, (policy.classPolicies.forClass c).ttl = some ttl ∧ ttl < now - candidate.createdAt) ∧
        (policy.classPolicies.forClass c).minCount ≤ rank := by
  have hwithin : withinWindow candidate.createdAt now (policy.classPolicies.forClass c).ttl = true ↔
      ¬ ∃ ttl, (policy.classPolicies.forClass c).ttl = some ttl ∧ ttl < now - candidate.createdAt := by
    cases (policy.classPolicies.forClass c).ttl with
    | none => simp [withinWindow]
    | some ttl => simp [withinWindow]
  rw [planEntry]
  cases policy.isPinned c candidate.id with
  | some pin => simp
  | none =>
    dsimp only
    split_ifs with hrank hin
    · simp [hrank]
    · simp [hwithin.mp hin]
    · rw [hwithin, not_not] at hin
      simp [hin, not_lt.mp hrank]

theorem planEntry_keep_iff {c : ArtifactClass} {candidate : SweepCandidate} {rank : ℕ} :
    (planEntry policy now c candidate rank).action = .keep ↔
      (planEntry policy now c candidate rank).action ≠ .markExpired := by
  cases (planEntry policy now c candidate rank).action <;> decide

theorem planEntry_names (c : ArtifactClass) (candidate : SweepCandidate) (rank : ℕ) :
    (planEntry policy now c candidate rank).artifactClass = c ∧
      (planEntry policy now c candidate rank).id = candidate.id := by
  rw [planEntry]
  cases policy.isPinned c candidate.id with
  | some pin => exact ⟨rfl, rfl⟩
  | none =>
    dsimp only
    split_ifs <;> exact ⟨rfl, rfl⟩

theorem planEntry_expired_mono {now' : ℤ} (hnow : now ≤ now') {c : ArtifactClass} {candidate : SweepCandidate} {rank : ℕ}
    (h : (planEntry policy now c candidate rank).action = .markExpired) :
    (planEntry policy now' c candidate rank).action = .markExpired := by
  rw [planEntry_expired_iff] at h ⊢
  obtain ⟨hpin, ⟨ttl, httl, hage⟩, hrank⟩ := h
  exact ⟨hpin, ⟨ttl, httl, by omega⟩, hrank⟩

theorem class_floor (groups : ClassOrder candidates) (c : ArtifactClass) :
    min (policy.classPolicies.forClass c).minCount (candidates.countP fun candidate => candidate.artifactClass = c) ≤
      (policy.planSweep candidates now groups).entries.countP fun e => e.artifactClass = c ∧ e.action = .keep := by
  have hsize : candidates.countP (fun candidate => candidate.artifactClass = c) = (ofClass candidates c).length := by
    conv_lhs => rw [← List.map_getElem_finRange candidates, List.countP_map]
    exact List.countP_eq_length_filter
  rw [hsize, ← @countP_rankIn_lt _ _ _ _ newestCandidate _ (ofClass_pairwise_lt c), planSweep_entries,
    List.countP_map, ofClass, List.countP_filter]
  apply List.countP_mono_left
  intro i _ hi
  rw [Bool.and_eq_true, decide_eq_true_iff, decide_eq_true_iff] at hi
  rw [← ofClass, ← newerInClass_eq_rankIn hi.2] at hi
  rw [Function.comp_apply, decide_eq_true_iff, entryOf, planEntry_keep_iff, Ne, planEntry_expired_iff, hi.2]
  refine ⟨(planEntry_names policy now c _ _).1, ?_⟩
  rintro ⟨-, -, hfloor⟩
  omega

theorem sweep_plan_exact (groups : ClassOrder candidates) :
    (policy.planSweep candidates now groups).entries.map (fun e => (e.artifactClass, e.id)) =
        candidates.map (fun candidate => (candidate.artifactClass, candidate.id)) ∧
      (∀ i : Fin candidates.length,
        (policy.planSweep candidates now groups).entries[i]?.map SweepPlanEntry.action = some .markExpired ↔
          policy.isPinned candidates[i].artifactClass candidates[i].id = none ∧
            (∃ ttl, (policy.classPolicies.forClass candidates[i].artifactClass).ttl = some ttl ∧
              ttl < now - candidates[i].createdAt) ∧
            (policy.classPolicies.forClass candidates[i].artifactClass).minCount ≤ newerInClass candidates i) ∧
      (∀ i : Fin candidates.length, (policy.isPinned candidates[i].artifactClass candidates[i].id).isSome = true →
        (policy.planSweep candidates now groups).entries[i]?.map SweepPlanEntry.action = some .keep) ∧
      (∀ c, min (policy.classPolicies.forClass c).minCount
          (candidates.countP fun candidate => candidate.artifactClass = c) ≤
        (policy.planSweep candidates now groups).entries.countP fun e => e.artifactClass = c ∧ e.action = .keep) ∧
      ∀ now' groups', now ≤ now' → ∀ i : Fin candidates.length,
        (policy.planSweep candidates now groups).entries[i]?.map SweepPlanEntry.action = some .markExpired →
          (policy.planSweep candidates now' groups').entries[i]?.map SweepPlanEntry.action = some .markExpired := by
  have hentry : ∀ now (groups : ClassOrder candidates) (i : Fin candidates.length),
      (policy.planSweep candidates now groups).entries[i]? = some (entryOf policy candidates now i) := by
    intro now groups i
    rw [planSweep_entries]
    simp
  refine ⟨?_, ?_, ?_, class_floor policy now groups, ?_⟩
  · conv_rhs => rw [← List.map_getElem_finRange candidates, List.map_map]
    rw [planSweep_entries, List.map_map]
    apply List.map_congr_left
    intro i _
    obtain ⟨hclass, hid⟩ := planEntry_names policy now candidates[i].artifactClass candidates[i]
      (newerInClass candidates i)
    rw [Function.comp_apply, Function.comp_apply, entryOf, hclass, hid]
    rfl
  · intro i
    rw [hentry, Option.map_some, Option.some_inj, entryOf, planEntry_expired_iff]
  · intro i hpinned
    rw [hentry, Option.map_some, Option.some_inj, entryOf, planEntry_keep_iff, Ne, planEntry_expired_iff]
    rintro ⟨hnone, -⟩
    rw [hnone] at hpinned
    exact absurd hpinned Bool.false_ne_true
  · intro now' groups' hnow i hexpired
    rw [hentry, Option.map_some, Option.some_inj] at hexpired ⊢
    exact planEntry_expired_mono policy now hnow hexpired

end Plan

section Trim

variable {n : ℕ} {ranked : List (Fin n)} {limit pinned m j : ℕ} {keep : Vector Bool n}

/-- The kept positions are the first `m` of the ranking. -/
def KeepsFirst (ranked : List (Fin n)) (m : ℕ) (keep : Vector Bool n) : Prop :=
  ∀ r (h : r < ranked.length), keep[ranked[r]] = true ↔ r < m

theorem KeepsFirst.congr (h : KeepsFirst ranked m keep) {m' : ℕ} (hm : m = m') : KeepsFirst ranked m' keep := hm ▸ h

theorem KeepsFirst.countP (h : KeepsFirst ranked m keep) (hperm : ranked.Perm (List.finRange n))
    (hm : m ≤ ranked.length) : keep.toList.countP id = m := by
  have hcount : ranked.countP (fun i => keep[i]) = min m ranked.length := countP_eq_of_iff_lt h
  rw [toList_eq_map_finRange, List.countP_map, ← hperm.countP_eq, ← min_eq_left hm, ← hcount]
  rfl

theorem trimLoop_keepsFirst (hnodup : ranked.Nodup) (hpinned : pinned ≤ limit)
    (hj : j ≤ ranked.length) (hlimit : min m limit ≤ j) (hkeep : KeepsFirst ranked (min m j) keep) :
    KeepsFirst ranked (min m limit)
      (trimLoop ranked limit pinned (ranked.take j).reverse (min m j) keep) := by
  induction j generalizing keep with
  | zero =>
    rw [List.take_zero, List.reverse_nil, trimLoop]
    exact hkeep.congr (by omega)
  | succ j ih =>
    have hlt : j < ranked.length := by omega
    have hmem : keep[ranked[j]] = true ↔ j < m := by
      rw [hkeep j hlt]
      omega
    rw [List.take_add_one, List.getElem?_eq_getElem hlt, Option.toList_some, List.reverse_append,
      List.reverse_singleton, List.singleton_append, trimLoop]
    split_ifs with hkept hdrop
    · exact hkeep.congr (by omega)
    · rw [Bool.and_eq_true, hmem] at hdrop
      rw [show min m (j + 1) - 1 = min m j by omega]
      apply ih (by omega) (by omega)
      intro r hr
      rw [getElem_set_fin]
      split_ifs with heq
      · rw [hnodup.getElem_inj_iff] at heq
        subst heq
        simp
      · have hne : j ≠ r := fun h => heq (by subst h; rfl)
        rw [hkeep r hr]
        omega
    · -- past the limit nothing is pinned, so what stays was not kept
      have hnot : ¬ (ranked.take pinned).contains ranked[j] = true := by
        rw [List.contains_iff_mem, getElem_mem_take_iff hnodup]
        omega
      rw [Bool.and_eq_true, hmem, Bool.not_eq_true', Bool.eq_false_iff] at hdrop
      have hle : m ≤ j := not_lt.mp fun hlt => hdrop ⟨hlt, hnot⟩
      rw [show min m (j + 1) = min m j by omega] at hkeep ⊢
      exact ih (by omega) (by omega) hkeep

theorem trimToLimit_keepsFirst (hperm : ranked.Perm (List.finRange n)) (hpinned : pinned ≤ limit)
    (hm : m ≤ ranked.length) (hkeep : KeepsFirst ranked m keep) :
    KeepsFirst ranked (min m limit) (trimToLimit ranked limit pinned keep) := by
  have hnodup : ranked.Nodup := hperm.nodup_iff.mpr (List.nodup_finRange n)
  rw [trimToLimit, hkeep.countP hperm hm]
  split_ifs with hle
  · exact hkeep.congr (by omega)
  · have hloop := @trimLoop_keepsFirst n ranked limit pinned m ranked.length keep hnodup hpinned le_rfl (by omega)
      (hkeep.congr (by omega))
    rwa [List.take_length, min_eq_left hm] at hloop

end Trim

section Ranked

variable {Environment Envelope : Type} (policy : RetentionPolicy)
  (bundles : List (RetentionRecord (CaseBundleDocument Environment Envelope))) (now : ℤ)

def rankedBundles : List (Fin bundles.length) := sortByKey (newestBundle bundles) (List.finRange bundles.length)

def bundleRank (i : Fin bundles.length) : ℕ := rankIn (newestBundle bundles) (List.finRange bundles.length) i

def insideWindow : ℕ := bundles.countP fun b => withinWindow b.createdAt now policy.failureRetentionWindow

def retainedCount : ℕ :=
  min policy.maxFailureBundles
    (max (min (min policy.keepLatestFailures policy.maxFailureBundles) bundles.length) (insideWindow policy bundles now))

variable {bundles}

theorem withinWindow_of_le {createdAt createdAt' now : ℤ} {window : Option ℤ} (h : createdAt ≤ createdAt')
    (hin : withinWindow createdAt now window = true) : withinWindow createdAt' now window = true := by
  cases window with
  | none => rfl
  | some window =>
    simp only [withinWindow, decide_eq_true_eq] at hin ⊢
    omega

theorem bundleRank_getElem {r : ℕ} (h : r < (rankedBundles bundles).length) :
    bundleRank bundles (rankedBundles bundles)[r] = r :=
  rankIn_of_getElem? (List.pairwise_lt_finRange _) (List.getElem?_eq_getElem h)

theorem insideWindow_eq_countP :
    insideWindow policy bundles now =
      (List.finRange bundles.length).countP fun i =>
        withinWindow bundles[i].createdAt now policy.failureRetentionWindow := by
  conv_lhs => rw [insideWindow, ← List.map_getElem_finRange bundles, List.countP_map]
  rfl

theorem withinWindow_iff (i : Fin bundles.length) :
    withinWindow bundles[i].createdAt now policy.failureRetentionWindow = true ↔
      bundleRank bundles i < insideWindow policy bundles now := by
  rw [insideWindow_eq_countP, bundleRank, rankIn_lt_countP_iff ?_ (List.mem_finRange i)]
  intro a b hab
  apply withinWindow_of_le
  rcases Prod.Lex.toLex_le_toLex.mp hab with hlt | ⟨heq, -⟩
  · exact le_of_lt (toDual_lt_toDual.mp hlt)
  · exact (toDual_inj.mp heq).ge

theorem rankedBundles_perm : (rankedBundles bundles).Perm (List.finRange bundles.length) := sortByKey_perm _ _

theorem length_rankedBundles : (rankedBundles bundles).length = bundles.length := by
  rw [rankedBundles_perm.length_eq, List.length_finRange]

variable (bundles)

theorem keepsFirst_marked (pinned : ℕ) :
    KeepsFirst (rankedBundles bundles) (max pinned (insideWindow policy bundles now))
      (((rankedBundles bundles).drop pinned).foldl
        (fun keep (i : Fin bundles.length) =>
          if withinWindow bundles[i].createdAt now policy.failureRetentionWindow then keep.set i true else keep)
        (((rankedBundles bundles).take pinned).foldl (fun keep (i : Fin bundles.length) => keep.set i true)
          (Vector.replicate bundles.length false))) := by
  intro r hr
  have hnodup : (rankedBundles bundles).Nodup := rankedBundles_perm.nodup_iff.mpr (List.nodup_finRange _)
  have hpins := getElem_foldl_mark (fun _ => true) ((rankedBundles bundles).take pinned)
    (Vector.replicate bundles.length false) (rankedBundles bundles)[r]
  simp only [if_true] at hpins
  have hinside := withinWindow_iff policy now (rankedBundles bundles)[r]
  rw [bundleRank_getElem hr] at hinside
  rw [getElem_foldl_mark, hpins, Fin.getElem_fin, Vector.getElem_replicate]
  simp only [Bool.false_or, Bool.and_true, Bool.or_eq_true, Bool.and_eq_true, decide_eq_true_eq, hinside,
    getElem_mem_take_iff hnodup, getElem_mem_drop_iff hnodup]
  omega

theorem insideWindow_le : insideWindow policy bundles now ≤ bundles.length := List.countP_le_length

theorem retainFailureBundleRecords_keepsFirst :
    KeepsFirst (rankedBundles bundles) (retainedCount policy bundles now)
      (policy.retainFailureBundleRecords bundles now) := by
  have hlen := @length_rankedBundles _ _ bundles
  rw [RetentionPolicy.retainFailureBundleRecords]
  split_ifs with hnone
  · intro r hr
    have hzero : retainedCount policy bundles now ≤ r := by
      rcases hnone with hmax | hempty
      · rw [retainedCount, hmax]
        omega
      · rw [hlen, List.isEmpty_iff.mp hempty] at hr
        exact absurd hr (Nat.not_lt_zero r)
    rw [Fin.getElem_fin, Vector.getElem_replicate]
    simpa only [Bool.false_eq_true, false_iff, not_lt] using hzero
  · rw [← rankedBundles]
    have hinside := insideWindow_le policy bundles now
    have hkeep := keepsFirst_marked policy bundles now
      (min (min policy.keepLatestFailures policy.maxFailureBundles) (rankedBundles bundles).length)
    apply (trimToLimit_keepsFirst rankedBundles_perm (by omega) (by omega) hkeep).congr
    rw [retainedCount, hlen, min_comm]

theorem retains_newest :
    (∀ i : Fin bundles.length, (policy.retainFailureBundleRecords bundles now)[i] = true ↔
        bundleRank bundles i < retainedCount policy bundles now) ∧
      (policy.retainFailureBundleRecords bundles now).toList.countP id = retainedCount policy bundles now ∧
      ∀ dropped kept : Fin bundles.length, (policy.retainFailureBundleRecords bundles now)[dropped] = false →
        (policy.retainFailureBundleRecords bundles now)[kept] = true →
          Before (newestBundle bundles) kept dropped := by
  have hkeeps := retainFailureBundleRecords_keepsFirst policy bundles now
  have hrank : ∀ i : Fin bundles.length, (policy.retainFailureBundleRecords bundles now)[i] = true ↔
      bundleRank bundles i < retainedCount policy bundles now := by
    intro i
    obtain ⟨r, hr, rfl⟩ := List.mem_iff_getElem.mp (rankedBundles_perm.mem_iff.mpr (List.mem_finRange i))
    rw [bundleRank_getElem hr]
    exact hkeeps r hr
  refine ⟨hrank, ?_, ?_⟩
  · apply hkeeps.countP rankedBundles_perm
    have hinside := insideWindow_le policy bundles now
    rw [length_rankedBundles, retainedCount]
    omega
  · intro dropped kept hdropped hkept
    rw [← Bool.not_eq_true, hrank] at hdropped
    rw [hrank] at hkept
    exact before_of_rankIn_lt (lt_of_lt_of_le hkept (not_lt.mp hdropped))

end Ranked

end CrashLab.Retention
