import CrashLab.SignatureHash
import CrashLab.Sorting
import Mathlib.Data.Prod.Lex
import Mathlib.Data.String.Basic

namespace CrashLab.Baselines

open SignatureHash Sorting

def baselineSchemaVersion : ℕ := 1

inductive EntryStatus where
  | «open»
  | fixed
deriving DecidableEq, Repr

structure BaselineEntry where
  signatureHash : String
  category : String
  firstSeen : String
  status : EntryStatus
deriving DecidableEq, Repr

structure ObservedSignature where
  signatureHash : String
  category : String
deriving DecidableEq, Repr

structure Baseline where
  version : ℕ
  entries : List BaselineEntry
deriving DecidableEq, Repr

structure Classification where
  new : List ObservedSignature
  recurring : List ObservedSignature
  fixed : List BaselineEntry
deriving DecidableEq, Repr

inductive BaselineError where
  | corrupt (expected actual : String)
  | malformed (message : String)
  | unsupportedVersion (version : ℕ)
deriving DecidableEq, Repr

section Files

structure BaselineFile where
  version : ℕ
  integrity : String
  entries : List BaselineEntry

variable (parse : String → Except String BaselineFile) (compactJson : List BaselineEntry → String)
  (sha256Hex : List UInt8 → String)

def integrityOf (version : ℕ) (entries : List BaselineEntry) : String :=
  sha256Hex (asBytes ("baseline-v" ++ toString version ++ "\n" ++ compactJson entries))

def Baseline.fromJson (json : String) : Except BaselineError Baseline :=
  match parse json with
  | .error message => .error (.malformed message)
  | .ok file =>
    if file.version ≠ baselineSchemaVersion then .error (.unsupportedVersion file.version)
    else
      let actual := integrityOf compactJson sha256Hex file.version file.entries
      if actual ≠ file.integrity then .error (.corrupt file.integrity actual)
      else .ok ⟨file.version, file.entries⟩

end Files

section Classify

def observedOrder (o : ObservedSignature) : String ×ₗ String := toLex (o.signatureHash, o.category)

def openEntries (baseline : Baseline) : List BaselineEntry := baseline.entries.filter (·.status = .open)

def openHashes (baseline : Baseline) : List String := (openEntries baseline).map (·.signatureHash)

def observedSorted (observed : List ObservedSignature) : List ObservedSignature :=
  dedupByKey ObservedSignature.signatureHash (sortByKey observedOrder observed)

def observedHashes (observed : List ObservedSignature) : List String :=
  (observedSorted observed).map (·.signatureHash)

def classify (baseline : Baseline) (observed : List ObservedSignature) : Classification where
  new := (observedSorted observed).filter fun o => o.signatureHash ∉ openHashes baseline
  recurring := (observedSorted observed).filter fun o => o.signatureHash ∈ openHashes baseline
  fixed := sortByKey BaselineEntry.signatureHash
    ((openEntries baseline).filter fun e => e.signatureHash ∉ observedHashes observed)

end Classify

section Order

variable {baseline baseline' : Baseline} {observed observed' : List ObservedSignature}

theorem observedOrder_injective : Function.Injective observedOrder := by
  intro o o' h
  obtain ⟨hash, category⟩ := o
  obtain ⟨hash', category'⟩ := o'
  obtain ⟨rfl, rfl⟩ := Prod.mk.inj (toLex_inj.mp h)
  rfl

theorem observedSorted_perm (h : observed.Perm observed') : observedSorted observed = observedSorted observed' := by
  rw [observedSorted, sortByKey_eq_of_perm observedOrder_injective h, observedSorted]

theorem exists_mem_observedSorted {o : ObservedSignature} (h : o ∈ observed) :
    ∃ o' ∈ observedSorted observed, o'.signatureHash = o.signatureHash :=
  exists_mem_dedupByKey ((mem_sortByKey observedOrder).mpr h)

theorem mem_openHashes {hash : String} :
    hash ∈ openHashes baseline ↔ ∃ e ∈ baseline.entries, e.status = .open ∧ e.signatureHash = hash := by
  simp [openHashes, openEntries, and_assoc]

theorem mem_new {o : ObservedSignature} : o ∈ (classify baseline observed).new ↔
    o ∈ observedSorted observed ∧ o.signatureHash ∉ openHashes baseline := by
  simp [classify]

theorem mem_recurring {o : ObservedSignature} : o ∈ (classify baseline observed).recurring ↔
    o ∈ observedSorted observed ∧ o.signatureHash ∈ openHashes baseline := by
  simp [classify]

theorem openHashes_congr (h : baseline.entries.Perm baseline'.entries) (hash : String) :
    hash ∈ openHashes baseline ↔ hash ∈ openHashes baseline' := by
  simp only [mem_openHashes, h.mem_iff]

theorem exists_new_iff {o : ObservedSignature} (h : o ∈ observed) :
    (∃ s ∈ (classify baseline observed).new, s.signatureHash = o.signatureHash) ↔
      o.signatureHash ∉ openHashes baseline := by
  constructor
  · rintro ⟨s, hs, hhash⟩
    rw [← hhash]
    exact (mem_new.mp hs).2
  · intro hopen
    obtain ⟨s, hs, hhash⟩ := exists_mem_observedSorted h
    exact ⟨s, mem_new.mpr ⟨hs, by rwa [hhash]⟩, hhash⟩

theorem exists_recurring_iff {o : ObservedSignature} (h : o ∈ observed) :
    (∃ s ∈ (classify baseline observed).recurring, s.signatureHash = o.signatureHash) ↔
      o.signatureHash ∈ openHashes baseline := by
  constructor
  · rintro ⟨s, hs, hhash⟩
    rw [← hhash]
    exact (mem_recurring.mp hs).2
  · intro hopen
    obtain ⟨s, hs, hhash⟩ := exists_mem_observedSorted h
    exact ⟨s, mem_recurring.mpr ⟨hs, by rwa [hhash]⟩, hhash⟩

theorem classification_order_independent (hentries : baseline.entries.Perm baseline'.entries)
    (hobserved : observed.Perm observed') :
    (classify baseline observed).new = (classify baseline' observed').new ∧
      (classify baseline observed).recurring = (classify baseline' observed').recurring ∧
      (classify baseline observed).fixed.Perm (classify baseline' observed').fixed ∧
      ∀ o ∈ observed, Xor (∃ s ∈ (classify baseline observed).new, s.signatureHash = o.signatureHash)
        (∃ s ∈ (classify baseline observed).recurring, s.signatureHash = o.signatureHash) := by
  have hsorted := observedSorted_perm hobserved
  refine ⟨?_, ?_, ?_, ?_⟩
  · simp only [classify, hsorted, openHashes_congr hentries]
  · simp only [classify, hsorted, openHashes_congr hentries]
  · refine (sortByKey_perm _ _).trans (List.Perm.trans ?_ (sortByKey_perm _ _).symm)
    rw [observedHashes, hsorted, ← observedHashes]
    exact (hentries.filter _).filter _
  · intro o ho
    rw [exists_new_iff ho, exists_recurring_iff ho]
    by_cases hopen : o.signatureHash ∈ openHashes baseline
    · exact .inr ⟨hopen, not_not.mpr hopen⟩
    · exact .inl ⟨hopen, hopen⟩

theorem conflicting_entries_swapped :
    (classify ⟨1, [⟨"0a", "auth", "run-1", .open⟩, ⟨"0a", "auth", "run-2", .fixed⟩]⟩ [⟨"0b", "xdr"⟩, ⟨"0a", "auth"⟩]).new =
      (classify ⟨1, [⟨"0a", "auth", "run-2", .fixed⟩, ⟨"0a", "auth", "run-1", .open⟩]⟩
        [⟨"0a", "auth"⟩, ⟨"0b", "xdr"⟩]).new :=
  (classification_order_independent (List.Perm.swap _ _ _) (List.Perm.swap _ _ _)).1

end Order

end CrashLab.Baselines
