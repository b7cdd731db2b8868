import CrashLab.Histories
import CrashLab.Cluster
import CrashLab.OrderedMaps

namespace CrashLab.Cluster

open Accumulation Histories OrderedMaps Sorting Taxonomy
open Std (ExtTreeMap)

structure ClusterSummary where
  count : UInt64
  firstSeen : ℕ
  lastSeen : ℕ
  exemplar : ℕ ×ₗ ℕ
deriving DecidableEq

namespace ClusterSummary

instance : Add ClusterSummary :=
  ⟨fun a b => ⟨a.count + b.count, min a.firstSeen b.firstSeen, max a.lastSeen b.lastSeen,
    min a.exemplar b.exemplar⟩⟩

theorem add_def (a b : ClusterSummary) :
    a + b = ⟨a.count + b.count, min a.firstSeen b.firstSeen, max a.lastSeen b.lastSeen,
      min a.exemplar b.exemplar⟩ := rfl

instance : AddCommSemigroup ClusterSummary where
  add_assoc a b c := by simp only [add_def, add_assoc, min_assoc, max_assoc]
  add_comm a b := by
    simp only [add_def, add_comm a.count, min_comm a.firstSeen, max_comm a.lastSeen,
      min_comm a.exemplar]

end ClusterSummary

def FailureObservation.summary (obs : FailureObservation) : ClusterSummary :=
  ⟨1, obs.observedAt, obs.observedAt, obs.member.size⟩

namespace FailureCluster

def summary (cluster : FailureCluster) : ClusterSummary :=
  ⟨cluster.count, cluster.firstSeen, cluster.lastSeen,
    toLex (cluster.exemplarPayloadLen, cluster.exemplarSeedId)⟩

theorem obsBeatsExemplar_iff (cluster : FailureCluster) (obs : FailureObservation) :
    cluster.obsBeatsExemplar obs = true ↔ obs.member.size < cluster.summary.exemplar :=
  decide_eq_true_iff

theorem extend_cases (cluster : FailureCluster) (obs : FailureObservation) :
    let extended := { cluster with
      count := cluster.count + 1
      firstSeen := min cluster.firstSeen obs.observedAt
      lastSeen := max cluster.lastSeen obs.observedAt
      members := cluster.members ++ [obs.member] }
    (obs.member.size < cluster.summary.exemplar ∧ cluster.extend obs = { extended with
      exemplarSeedId := obs.seedId
      exemplarPayloadLen := obs.seedPayloadLen
      exemplarRawSignature := obs.rawSignature }) ∨
    (¬obs.member.size < cluster.summary.exemplar ∧ cluster.extend obs = extended) := by
  intro extended
  have hbeats : (({ cluster with
      count := cluster.count + 1
      firstSeen := min cluster.firstSeen obs.observedAt
      lastSeen := max cluster.lastSeen obs.observedAt } : FailureCluster).obsBeatsExemplar obs) =
      cluster.obsBeatsExemplar obs := rfl
  rw [← obsBeatsExemplar_iff]
  cases hcase : cluster.obsBeatsExemplar obs with
  | true =>
    refine Or.inl ⟨rfl, ?_⟩
    simp only [extend, hbeats, hcase, if_true]
    rfl
  | false =>
    refine Or.inr ⟨Bool.false_ne_true, ?_⟩
    simp only [extend, hbeats, hcase, Bool.false_eq_true, if_false]
    rfl

theorem extend_summary (cluster : FailureCluster) (obs : FailureObservation) :
    (cluster.extend obs).summary = cluster.summary + obs.summary := by
  obtain ⟨hbeats, heq⟩ | ⟨hkeeps, heq⟩ := cluster.extend_cases obs
  · rw [heq, ClusterSummary.add_def, show min cluster.summary.exemplar obs.summary.exemplar =
      obs.member.size from min_eq_right hbeats.le]
    rfl
  · rw [heq, ClusterSummary.add_def, show min cluster.summary.exemplar obs.summary.exemplar =
      cluster.summary.exemplar from min_eq_left (not_lt.mp hkeeps)]
    rfl

end FailureCluster

namespace ClusterStore

def summaries (store : ClusterStore) (key : ClusterKey) : WithZero ClusterSummary :=
  store.clusters[key]?.map FailureCluster.summary

def contribution (engine : Externals) (rules : NormalizationRules) (obs : FailureObservation) :
    ClusterKey → WithZero ClusterSummary :=
  Pi.single (ClusterKey.new engine obs.taxonomyClass obs.rawSignature rules) ↑obs.summary

def ingested (engine : Externals) (store : ClusterStore) (obs : FailureObservation) : FailureCluster :=
  match store.clusters[store.keyOf engine obs]? with
  | some cluster => cluster.extend obs
  | none => FailureCluster.start (store.keyOf engine obs) obs

theorem ingest_eq (engine : Externals) (store : ClusterStore) (obs : FailureObservation) :
    store.ingest engine obs =
      ⟨store.rules, store.clusters.insert (store.keyOf engine obs) (store.ingested engine obs),
        store.totalObservations + 1⟩ := rfl

theorem ingest_keeps_rules (engine : Externals) (rules : NormalizationRules) (store : ClusterStore)
    (obs : FailureObservation) (h : store.rules = rules) : (store.ingest engine obs).rules = rules := h

theorem ingest_summaries (engine : Externals) (store : ClusterStore) (obs : FailureObservation) :
    (store.ingest engine obs).summaries = store.summaries + contribution engine store.rules obs := by
  funext key
  have hkey : ClusterKey.new engine obs.taxonomyClass obs.rawSignature store.rules =
    store.keyOf engine obs := rfl
  rw [Pi.add_apply, contribution, hkey, ingest_eq, summaries]
  by_cases heq : store.keyOf engine obs = key
  · subst heq
    rw [getElem?_insert_self, Pi.single_eq_same, summaries, ingested]
    cases hfound : store.clusters[store.keyOf engine obs]? with
    | some cluster =>
      exact congrArg _ (cluster.extend_summary obs)
    | none => rfl
  · rw [getElem?_insert_of_ne _ _ heq, Pi.single_eq_of_ne (Ne.symm heq), add_zero]
    rfl

end ClusterStore

section Summaries

variable (engine : Externals) (rules : NormalizationRules)

theorem ClusterStore.ingest_adds (store : ClusterStore) (obs : FailureObservation) (h : store.rules = rules) :
    (store.ingest engine obs).summaries = store.summaries + contribution engine rules obs := by
  rw [ingest_summaries, h]

theorem clusterObservations_summaries_perm {xs ys : List FailureObservation} (h : xs.Perm ys) :
    (clusterObservations engine xs rules).summaries = (clusterObservations engine ys rules).summaries :=
  view_run_perm (ClusterStore.ingest_keeps_rules engine rules) (ClusterStore.ingest_adds engine rules) rfl h

def observationsOf (key : ClusterKey) (observations : List FailureObservation) : List FailureObservation :=
  observations.filter fun obs => ClusterKey.new engine obs.taxonomyClass obs.rawSignature rules = key

theorem sum_contribution (key : ClusterKey) (observations : List FailureObservation) :
    (observations.map (ClusterStore.contribution engine rules)).sum key =
      ((observationsOf engine rules key observations).map fun obs => (obs.summary : WithZero ClusterSummary)).sum := by
  induction observations with
  | nil => rfl
  | cons obs observations ih =>
    rw [List.map_cons, List.sum_cons, Pi.add_apply, ih, ClusterStore.contribution, observationsOf, observationsOf]
    by_cases hkey : ClusterKey.new engine obs.taxonomyClass obs.rawSignature rules = key
    · rw [List.filter_cons_of_pos (by simpa using hkey), List.map_cons, List.sum_cons, hkey, Pi.single_eq_same]
    · rw [List.filter_cons_of_neg (by simpa using hkey), Pi.single_eq_of_ne (Ne.symm hkey), zero_add]

theorem clusterObservations_summaries (key : ClusterKey) (observations : List FailureObservation) :
    (clusterObservations engine observations rules).summaries key =
      ((observationsOf engine rules key observations).map fun obs => (obs.summary : WithZero ClusterSummary)).sum := by
  have hnew : (ClusterStore.new rules).summaries = 0 := by
    funext key
    rw [ClusterStore.summaries, ClusterStore.new, ExtTreeMap.getElem?_empty]
    rfl
  have hsum : (clusterObservations engine observations rules).summaries =
      (ClusterStore.new rules).summaries + (observations.map (ClusterStore.contribution engine rules)).sum :=
    view_run (ClusterStore.ingest_keeps_rules engine rules) (ClusterStore.ingest_adds engine rules) rfl observations
  rw [hsum, hnew, zero_add, sum_contribution]

end Summaries

structure Belongs (key : ClusterKey) (cluster : FailureCluster) : Prop where
  id_eq : cluster.id =
    clusterId key.taxonomyClass.asStr key.normalizedSignature key.rulesVersion
  taxonomyClass_eq : cluster.taxonomyClass = key.taxonomyClass.asStr
  normalizedSignature_eq : cluster.normalizedSignature = key.normalizedSignature
  rulesVersion_eq : cluster.rulesVersion = key.rulesVersion
  exemplar : ∃ best, cluster.members.argmin ClusterMember.size = some best ∧
    cluster.exemplarSeedId = best.seedId ∧ cluster.exemplarPayloadLen = best.seedPayloadLen ∧
    cluster.exemplarRawSignature = best.rawSignature

namespace Belongs

theorem start (key : ClusterKey) (obs : FailureObservation) :
    Belongs key (FailureCluster.start key obs) where
  id_eq := rfl
  taxonomyClass_eq := rfl
  normalizedSignature_eq := rfl
  rulesVersion_eq := rfl
  exemplar := ⟨obs.member, rfl, rfl, rfl, rfl⟩

theorem extend {key : ClusterKey} {cluster : FailureCluster} (h : Belongs key cluster)
    (obs : FailureObservation) : Belongs key (cluster.extend obs) := by
  obtain ⟨best, hbest, hseed, hlen, hraw⟩ := h.exemplar
  have hshown : cluster.summary.exemplar = best.size := by
    rw [FailureCluster.summary, ClusterMember.size, hseed, hlen]
  have hargmin : (cluster.members ++ [obs.member]).argmin ClusterMember.size =
      if obs.member.size < best.size then some obs.member else some best := by
    rw [List.argmin_concat, hbest]
  obtain ⟨hbeats, heq⟩ | ⟨hkeeps, heq⟩ := cluster.extend_cases obs
  · rw [hshown] at hbeats
    rw [if_pos hbeats] at hargmin
    rw [heq]
    exact ⟨h.id_eq, h.taxonomyClass_eq, h.normalizedSignature_eq, h.rulesVersion_eq,
      obs.member, hargmin, rfl, rfl, rfl⟩
  · rw [hshown] at hkeeps
    rw [if_neg hkeeps] at hargmin
    rw [heq]
    exact ⟨h.id_eq, h.taxonomyClass_eq, h.normalizedSignature_eq, h.rulesVersion_eq,
      best, hargmin, hseed, hlen, hraw⟩

theorem recomputeExemplar_eq {key : ClusterKey} {cluster : FailureCluster} (h : Belongs key cluster) :
    cluster.recomputeExemplar = cluster := by
  obtain ⟨best, hbest, hseed, hlen, hraw⟩ := h.exemplar
  simp only [FailureCluster.recomputeExemplar, hbest, ← hseed, ← hlen, ← hraw]

theorem restoreCluster_eq {key : ClusterKey} {cluster : FailureCluster} (h : Belongs key cluster)
    (store : ClusterStore) : store.restoreCluster cluster =
      ⟨store.rules, store.clusters.insert key cluster, store.totalObservations + cluster.count⟩ := by
  rw [ClusterStore.restoreCluster, h.recomputeExemplar_eq, h.taxonomyClass_eq,
    h.normalizedSignature_eq, h.rulesVersion_eq, FailureClass.fromCategoryLabel_asStr]

end Belongs

structure WellFormed (store : ClusterStore) : Prop where
  belongs : ∀ key cluster, store.clusters[key]? = some cluster → Belongs key cluster
  total : store.totalObservations = (store.clusters.toList.map (·.2.count)).sum

namespace WellFormed

theorem new (rules : NormalizationRules) : WellFormed (ClusterStore.new rules) where
  belongs key cluster h := by
    rw [ClusterStore.new, ExtTreeMap.getElem?_empty] at h
    cases h
  total := by
    rw [ClusterStore.new, toList_empty]
    rfl

theorem ingest {store : ClusterStore} (h : WellFormed store) (engine : Externals)
    (obs : FailureObservation) : WellFormed (store.ingest engine obs) where
  belongs key cluster hget := by
    rw [ClusterStore.ingest_eq] at hget
    by_cases heq : store.keyOf engine obs = key
    · subst heq
      rw [getElem?_insert_self, Option.some_inj] at hget
      rw [← hget, ClusterStore.ingested]
      cases hfound : store.clusters[store.keyOf engine obs]? with
      | some cluster => exact (h.belongs _ cluster hfound).extend obs
      | none => exact Belongs.start _ obs
    · rw [getElem?_insert_of_ne _ _ heq] at hget
      exact h.belongs key cluster hget
  total := by
    have hperm := toList_insert_perm store.clusters (store.keyOf engine obs) (store.ingested engine obs)
    rw [ClusterStore.ingest_eq, (hperm.map _).sum_eq, List.map_cons, List.sum_cons, h.total,
      ClusterStore.ingested]
    cases hfound : store.clusters[store.keyOf engine obs]? with
    | some cluster =>
      have hcount : (cluster.extend obs).count = cluster.count + 1 :=
        congrArg ClusterSummary.count (cluster.extend_summary obs)
      rw [((toList_perm_of_some hfound).map _).sum_eq, List.map_cons, List.sum_cons]
      simp only [hcount, add_right_comm]
    | none =>
      rw [← toList_eq_of_none hfound, add_comm]
      rfl

end WellFormed

theorem clusterObservations_wellFormed (engine : Externals) (observations : List FailureObservation)
    (rules : NormalizationRules) : WellFormed (clusterObservations engine observations rules) :=
  run_invariant (fun _ obs h => h.ingest engine obs) (WellFormed.new rules) observations

theorem clusterObservations_rules (engine : Externals) (observations : List FailureObservation)
    (rules : NormalizationRules) : (clusterObservations engine observations rules).rules = rules :=
  run_invariant (ClusterStore.ingest_keeps_rules engine rules) rfl observations

def FailureCluster.key (cluster : FailureCluster) : ClusterKey :=
  ⟨(FailureClass.fromCategoryLabel cluster.taxonomyClass).getD .unknown, cluster.rulesVersion,
    cluster.normalizedSignature⟩

theorem Belongs.key_eq {key : ClusterKey} {cluster : FailureCluster} (h : Belongs key cluster) :
    cluster.key = key := by
  rw [FailureCluster.key, h.taxonomyClass_eq, h.rulesVersion_eq, h.normalizedSignature_eq,
    FailureClass.fromCategoryLabel_asStr, Option.getD_some]

theorem foldl_restoreCluster {clusters : List FailureCluster}
    (h : ∀ cluster ∈ clusters, Belongs cluster.key cluster) (store : ClusterStore) :
    clusters.foldl ClusterStore.restoreCluster store =
      ⟨store.rules,
        (clusters.map fun cluster => (cluster.key, cluster)).foldl
          (fun acc entry => acc.insert entry.1 entry.2) store.clusters,
        store.totalObservations + (clusters.map (·.count)).sum⟩ := by
  induction clusters generalizing store with
  | nil =>
    simp only [List.foldl_nil, List.map_nil, List.sum_nil, add_zero]
  | cons cluster clusters ih =>
    have hhead := h cluster List.mem_cons_self
    have htail : ∀ c ∈ clusters, Belongs c.key c := fun c hc => h c (List.mem_cons_of_mem _ hc)
    rw [List.foldl_cons, hhead.restoreCluster_eq, ih htail, List.map_cons, List.map_cons,
      List.foldl_cons, List.sum_cons, add_assoc]

theorem WellFormed.fromSnapshot_snapshot {store : ClusterStore} (h : WellFormed store) :
    ClusterStore.fromSnapshot store.snapshot store.rules = store := by
  have hperm : store.clustersInTriageOrder.Perm (store.clusters.toList.map (·.2)) :=
    sortByKey_perm _ _
  have hentry : ∀ entry ∈ store.clusters.toList, Belongs entry.1 entry.2 := fun entry hmem =>
    h.belongs _ _ (ExtTreeMap.mem_toList_iff_getElem?_eq_some.mp hmem)
  have hbelongs : ∀ cluster ∈ store.clustersInTriageOrder, Belongs cluster.key cluster := by
    intro cluster hmem
    obtain ⟨entry, hin, rfl⟩ := List.mem_map.mp (hperm.mem_iff.mp hmem)
    rw [(hentry entry hin).key_eq]
    exact hentry entry hin
  have hentries : (store.clustersInTriageOrder.map fun cluster => (cluster.key, cluster)).Perm
      store.clusters.toList := by
    refine (hperm.map _).trans (List.Perm.of_eq ?_)
    rw [List.map_map]
    refine (List.map_congr_left ?_).trans (List.map_id _)
    intro entry hin
    exact Prod.ext (hentry entry hin).key_eq rfl
  have htotal : (store.clustersInTriageOrder.map (·.count)).sum = store.totalObservations := by
    rw [(hperm.map _).sum_eq, List.map_map, h.total]
    rfl
  rw [ClusterStore.fromSnapshot, ClusterStore.snapshot, foldl_restoreCluster hbelongs]
  rw [show (ClusterStore.new store.rules).clusters = ∅ from rfl, foldl_insert_perm_toList hentries,
    htotal, show (ClusterStore.new store.rules).totalObservations = 0 from rfl, zero_add]
  rfl

theorem clusters_order_independent_and_restartable (engine : Externals) (rules : NormalizationRules) :
    (∀ (xs : List FailureObservation) (key : ClusterKey), (clusterObservations engine xs rules).summaries key =
      ((observationsOf engine rules key xs).map fun obs => (obs.summary : WithZero ClusterSummary)).sum) ∧
    (∀ xs ys : List FailureObservation, xs.Perm ys →
      (∀ key : ClusterKey, key ∈ (clusterObservations engine xs rules).clusters ↔
        key ∈ (clusterObservations engine ys rules).clusters) ∧
      ∀ key : ClusterKey, (clusterObservations engine xs rules).clusters[key]?.map FailureCluster.summary =
        (clusterObservations engine ys rules).clusters[key]?.map FailureCluster.summary) ∧
    ∀ xs ys : List FailureObservation,
      run (ClusterStore.ingest engine)
          (ClusterStore.fromSnapshot (clusterObservations engine xs rules).snapshot rules) ys =
        clusterObservations engine (xs ++ ys) rules := by
  refine ⟨fun xs key => clusterObservations_summaries engine rules key xs, fun xs ys h => ?_, fun xs ys => ?_⟩
  · have hsummaries : ∀ key : ClusterKey,
        (clusterObservations engine xs rules).clusters[key]?.map FailureCluster.summary =
          (clusterObservations engine ys rules).clusters[key]?.map FailureCluster.summary :=
      congrFun (clusterObservations_summaries_perm engine rules h)
    refine ⟨fun key => ?_, hsummaries⟩
    have hsome := congrArg Option.isSome (hsummaries key)
    rw [Option.isSome_map, Option.isSome_map] at hsome
    rw [ExtTreeMap.mem_iff_isSome_getElem?, ExtTreeMap.mem_iff_isSome_getElem?, hsome]
  · have hrestored := (clusterObservations_wellFormed engine xs rules).fromSnapshot_snapshot
    rw [clusterObservations_rules] at hrestored
    rw [hrestored]
    exact (run_append _ _ xs ys).symm

end CrashLab.Cluster
