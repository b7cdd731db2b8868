import Mathlib.Data.List.MinMax
import Mathlib.Data.Prod.Lex
import Mathlib.Data.String.Basic
import Mathlib.Data.UInt
import CrashLab.Histories
import CrashLab.Normalization
import CrashLab.SignatureHash
import CrashLab.Sorting

namespace CrashLab.Cluster

open Histories SignatureHash Sorting Std Taxonomy

structure ClusterKey where
  taxonomyClass : FailureClass
  rulesVersion : ℕ
  normalizedSignature : String
deriving DecidableEq, Repr

namespace ClusterKey

def new (engine : Externals) (taxonomyClass : FailureClass) (rawPreimage : String)
    (rules : NormalizationRules) : ClusterKey :=
  let normalized := normalizeSignature engine rawPreimage rules
  { taxonomyClass, rulesVersion := normalized.rulesVersion, normalizedSignature := normalized.text }

instance : Ord ClusterKey :=
  ⟨compareLex (compareOn (·.taxonomyClass))
    (compareLex (compareOn (·.rulesVersion)) (compareOn (·.normalizedSignature)))⟩

instance : TransOrd ClusterKey := inferInstanceAs (TransCmp (compareLex _ _))

instance : LawfulEqOrd ClusterKey where
  eq_of_compare {a b} h := by
    have hfields : compare a.taxonomyClass b.taxonomyClass = .eq ∧
        compare a.rulesVersion b.rulesVersion = .eq ∧
        compare a.normalizedSignature b.normalizedSignature = .eq := by
      have hlex : (compareLex (compareOn ClusterKey.taxonomyClass) (compareLex
        (compareOn ClusterKey.rulesVersion) (compareOn ClusterKey.normalizedSignature))) a b = .eq := h
      rwa [compareLex_eq_eq, compareLex_eq_eq] at hlex
    obtain ⟨hclass, hversion, htext⟩ := hfields
    rw [LawfulEqOrd.compare_eq_iff_eq] at hclass hversion htext
    cases a
    cases b
    simp_all only

end ClusterKey

structure FailureObservation where
  taxonomyClass : FailureClass
  rawSignature : String
  seedId : ℕ
  seedPayloadLen : ℕ
  observedAt : ℕ
deriving DecidableEq, Repr

structure ClusterMember where
  seedId : ℕ
  seedPayloadLen : ℕ
  rawSignature : String
  observedAt : ℕ
deriving DecidableEq, Repr

structure FailureCluster where
  id : String
  taxonomyClass : String
  normalizedSignature : String
  rulesVersion : ℕ
  count : UInt64
  exemplarSeedId : ℕ
  exemplarPayloadLen : ℕ
  exemplarRawSignature : String
  firstSeen : ℕ
  lastSeen : ℕ
  members : List ClusterMember
deriving DecidableEq, Repr

def clusterId (taxonomyClass normalized : String) (rulesVersion : ℕ) : String :=
  let hash := hashNormalizedSignature taxonomyClass normalized
  s!"{taxonomyClass}:{hex16 hash}:v{rulesVersion}"

def FailureObservation.member (obs : FailureObservation) : ClusterMember where
  seedId := obs.seedId
  seedPayloadLen := obs.seedPayloadLen
  rawSignature := obs.rawSignature
  observedAt := obs.observedAt

def ClusterMember.size (m : ClusterMember) : ℕ ×ₗ ℕ := toLex (m.seedPayloadLen, m.seedId)

namespace FailureCluster

def new (key : ClusterKey) (obs : FailureObservation) : FailureCluster :=
  let taxonomyClass := key.taxonomyClass.asStr
  { id := clusterId taxonomyClass key.normalizedSignature key.rulesVersion
    taxonomyClass
    normalizedSignature := key.normalizedSignature
    rulesVersion := key.rulesVersion
    count := 0
    exemplarSeedId := obs.seedId
    exemplarPayloadLen := obs.seedPayloadLen
    exemplarRawSignature := obs.rawSignature
    firstSeen := obs.observedAt
    lastSeen := obs.observedAt
    members := [] }

def obsBeatsExemplar (cluster : FailureCluster) (obs : FailureObservation) : Bool :=
  toLex (obs.seedPayloadLen, obs.seedId) < toLex (cluster.exemplarPayloadLen, cluster.exemplarSeedId)

/-- The first of the smallest members becomes the exemplar, as `min_by_key` picks it. -/
def recomputeExemplar (cluster : FailureCluster) : FailureCluster :=
  match cluster.members.argmin ClusterMember.size with
  | some best =>
    { cluster with
      exemplarSeedId := best.seedId
      exemplarPayloadLen := best.seedPayloadLen
      exemplarRawSignature := best.rawSignature }
  | none => cluster

def extend (cluster : FailureCluster) (obs : FailureObservation) : FailureCluster :=
  let cluster :=
    { cluster with
      count := cluster.count + 1
      firstSeen := min cluster.firstSeen obs.observedAt
      lastSeen := max cluster.lastSeen obs.observedAt }
  let cluster :=
    if cluster.obsBeatsExemplar obs then
      { cluster with
        exemplarSeedId := obs.seedId
        exemplarPayloadLen := obs.seedPayloadLen
        exemplarRawSignature := obs.rawSignature }
    else cluster
  { cluster with members := cluster.members ++ [obs.member] }

def start (key : ClusterKey) (obs : FailureObservation) : FailureCluster :=
  { new key obs with count := 1, members := [obs.member] }

end FailureCluster

structure ClusterSnapshot where
  rulesVersion : ℕ
  clusters : List FailureCluster
deriving DecidableEq, Repr

structure ClusterStore where
  rules : NormalizationRules
  clusters : ExtTreeMap ClusterKey FailureCluster
  totalObservations : UInt64

namespace ClusterStore

def new (rules : NormalizationRules) : ClusterStore := ⟨rules, ∅, 0⟩

def keyOf (engine : Externals) (store : ClusterStore) (obs : FailureObservation) : ClusterKey :=
  ClusterKey.new engine obs.taxonomyClass obs.rawSignature store.rules

def ingest (engine : Externals) (store : ClusterStore) (obs : FailureObservation) : ClusterStore :=
  let key := store.keyOf engine obs
  let cluster :=
    match store.clusters[key]? with
    | some cluster => cluster.extend obs
    | none => FailureCluster.start key obs
  { store with
    clusters := store.clusters.insert key cluster
    totalObservations := store.totalObservations + 1 }

def triageKey (cluster : FailureCluster) : ℕᵒᵈ ×ₗ String ×ₗ String :=
  toLex (OrderDual.toDual cluster.count.toNat,
    toLex (cluster.normalizedSignature, cluster.taxonomyClass))

def clustersInTriageOrder (store : ClusterStore) : List FailureCluster :=
  sortByKey triageKey (store.clusters.toList.map (·.2))

def snapshot (store : ClusterStore) : ClusterSnapshot :=
  ⟨store.rules.rulesVersion, store.clustersInTriageOrder⟩

/-- One turn of the loop of `from_snapshot`. -/
def restoreCluster (store : ClusterStore) (cluster : FailureCluster) : ClusterStore :=
  let total := store.totalObservations + cluster.count
  let cluster := cluster.recomputeExemplar
  match FailureClass.fromCategoryLabel cluster.taxonomyClass with
  | some class_ =>
    let key : ClusterKey := ⟨class_, cluster.rulesVersion, cluster.normalizedSignature⟩
    { store with clusters := store.clusters.insert key cluster, totalObservations := total }
  | none => { store with totalObservations := total }

def fromSnapshot (snapshot : ClusterSnapshot) (rules : NormalizationRules) : ClusterStore :=
  snapshot.clusters.foldl restoreCluster (new rules)

end ClusterStore

def clusterObservations (engine : Externals) (observations : List FailureObservation)
    (rules : NormalizationRules) : ClusterStore :=
  run (ClusterStore.ingest engine) (ClusterStore.new rules) observations

end CrashLab.Cluster
