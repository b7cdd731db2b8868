import CrashLab.OrderedMaps
import CrashLab.Sorting
import CrashLab.Taxonomy
import Mathlib.Data.Prod.Lex

namespace CrashLab.Minimize

open OrderedMaps Sorting Std Taxonomy

structure CorpusRecord where
  seed : CaseSeed
  provenance : Option String
  observedSignature : Option CrashSignature
  tombstoned : Bool
deriving DecidableEq, Repr

namespace CorpusRecord

def size (record : CorpusRecord) : ℕ := record.seed.payload.length

def rank (record : CorpusRecord) : ℕ ×ₗ ℕ := toLex (record.size, record.seed.id)

end CorpusRecord

structure BehaviorKey where
  outcomeClass : String
  signatureHash : Option ℕ
deriving DecidableEq, Repr

namespace BehaviorKey

instance : Ord BehaviorKey := ⟨compareLex (compareOn (·.outcomeClass)) (compareOn (·.signatureHash))⟩

instance : TransOrd BehaviorKey := inferInstanceAs (TransCmp (compareLex _ _))

instance : LawfulEqOrd BehaviorKey where
  eq_of_compare {a b} h := by
    have hlex : compareLex (compareOn BehaviorKey.outcomeClass) (compareOn BehaviorKey.signatureHash) a b = .eq := h
    rw [compareLex_eq_eq] at hlex
    obtain ⟨hclass, hhash⟩ : compare a.outcomeClass b.outcomeClass = .eq ∧
        compare a.signatureHash b.signatureHash = .eq := hlex
    rw [LawfulEqOrd.compare_eq_iff_eq] at hclass hhash
    cases a
    cases b
    simp_all only

end BehaviorKey

def behaviorKey (record : CorpusRecord) : BehaviorKey :=
  match record.observedSignature with
  | some sig => ⟨sig.category, some sig.signatureHash⟩
  | none => ⟨(classifyFailure record.seed).asStr, none⟩

structure BehaviorGroup where
  key : BehaviorKey
  members : List ℕ
deriving DecidableEq, Repr

structure MinimizationPlan where
  groups : List BehaviorGroup
  keep : List ℕ
  remove : List ℕ
  bytesSaved : ℕ
deriving DecidableEq, Repr

inductive MinimizeError where
  | duplicateSeedId (id : ℕ)
deriving DecidableEq, Repr

def liveRecords (store : List CorpusRecord) : List CorpusRecord :=
  sortByKey (·.seed.id) (store.filter (!·.tombstoned))

/-- The walk over `windows(2)`. -/
def findDuplicate : List CorpusRecord → Option ℕ
  | a :: b :: records => if a.seed.id = b.seed.id then some a.seed.id else findDuplicate (b :: records)
  | _ => none

def provenanceCounts (live : List CorpusRecord) : ExtTreeMap String ℕ :=
  countBy compare (live.filterMap (·.provenance))

def hasUniqueProvenance (counts : ExtTreeMap String ℕ) (record : CorpusRecord) : Bool :=
  match record.provenance with
  | some tag => counts[tag]?.getD 0 == 1
  | none => false

def planMember (counts : ExtTreeMap String ℕ) (plan : MinimizationPlan) (entry : CorpusRecord × ℕ) :
    MinimizationPlan :=
  let (record, index) := entry
  if index == 0 || hasUniqueProvenance counts record then
    { plan with keep := plan.keep ++ [record.seed.id] }
  else
    { plan with remove := plan.remove ++ [record.seed.id], bytesSaved := plan.bytesSaved + record.size }

def planGroup (counts : ExtTreeMap String ℕ) (plan : MinimizationPlan)
    (bucket : BehaviorKey × List CorpusRecord) : MinimizationPlan :=
  let members := sortByKey CorpusRecord.rank bucket.2
  let memberIds := sortByKey id (members.map (·.seed.id))
  let plan := members.zipIdx.foldl (planMember counts) plan
  { plan with groups := plan.groups ++ [⟨bucket.1, memberIds⟩] }

def planMinimization (store : List CorpusRecord) : Except MinimizeError MinimizationPlan :=
  let live := liveRecords store
  match findDuplicate live with
  | some id => .error (.duplicateSeedId id)
  | none =>
    let buckets := (groupBy compare behaviorKey live).toList
    let plan := buckets.foldl (planGroup (provenanceCounts live)) ⟨[], [], [], 0⟩
    .ok { plan with keep := sortByKey id plan.keep, remove := sortByKey id plan.remove }

structure ApplyReport where
  tombstoned : ℕ
  bytesTombstoned : ℕ
deriving DecidableEq, Repr

def applyRecord (remove : List ℕ) (done : List CorpusRecord × ApplyReport) (record : CorpusRecord) :
    List CorpusRecord × ApplyReport :=
  if !record.tombstoned && remove.contains record.seed.id then
    (done.1 ++ [{ record with tombstoned := true }],
      ⟨done.2.tombstoned + 1, done.2.bytesTombstoned + record.size⟩)
  else (done.1 ++ [record], done.2)

def applyMinimization (plan : MinimizationPlan) (store : List CorpusRecord) : List CorpusRecord × ApplyReport :=
  store.foldl (applyRecord plan.remove) ([], ⟨0, 0⟩)

end CrashLab.Minimize
