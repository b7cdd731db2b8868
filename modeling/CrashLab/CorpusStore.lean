import CrashLab.CorpusArchive
import CrashLab.Occurrences
import CrashLab.OrderedMaps

namespace CrashLab.Archive

open Occurrences OrderedMaps Sorting

open Std (ExtTreeMap)

inductive EngineVersionPolicy where
  | requireExact
  | allowCompatible
  | ignore
deriving DecidableEq, Repr

structure CorpusStore where
  seeds : List CaseSeed
  provenance : ExtTreeMap String (List String)

structure MergeReport where
  archiveId : String
  engineVersion : String
  engineCompatible : Bool
  added : ℕ
  duplicates : ℕ
  provenanceUnions : ℕ
  versionSkipped : ℕ
  dryRun : Bool
deriving DecidableEq, Repr

namespace CorpusStore

def new : CorpusStore := ⟨[], ∅⟩

def sortedSeeds (store : CorpusStore) : List CaseSeed := sortByKey seedOrder store.seeds

def tagsFor (store : CorpusStore) (contentHash : String) : List String :=
  store.provenance[contentHash]?.getD []

def holds (store : CorpusStore) (seed : CaseSeed) : Bool :=
  store.seeds.any fun s => s.id == seed.id && s.payload == seed.payload

def addTag (entry : List String × Bool) (tag : String) : List String × Bool :=
  if tag ∈ entry.1 then entry else (entry.1 ++ [tag], true)

variable (sha256 : List UInt8 → List UInt8)

def insert (store : CorpusStore) (seed : CaseSeed) (tags : List String) : CorpusStore × Bool × Bool :=
  let hash := seedContentHash sha256 seed
  let (entry, provChanged) := tags.foldl addTag (store.tagsFor hash, false)
  let store' : CorpusStore := { store with provenance := store.provenance.insert hash (sortDedup entry) }
  if store.holds seed then (store', false, provChanged)
  else ({ store' with seeds := store.seeds ++ [seed] }, true, provChanged)

def dryRunStep (store : CorpusStore) (report : MergeReport) (packed : ArchiveEntry × CaseSeed) :
    MergeReport :=
  if store.holds packed.2 then
    let existing := store.tagsFor packed.1.contentHash
    let report := { report with duplicates := report.duplicates + 1 }
    if packed.1.tags.any (· ∉ existing) then
      { report with provenanceUnions := report.provenanceUnions + 1 }
    else report
  else { report with added := report.added + 1 }

def mergeStep (state : CorpusStore × MergeReport) (packed : ArchiveEntry × CaseSeed) :
    CorpusStore × MergeReport :=
  let (store, added, provChanged) := insert sha256 state.1 packed.2 packed.1.tags
  let report := state.2
  let report :=
    if added then { report with added := report.added + 1 }
    else { report with duplicates := report.duplicates + 1 }
  let report :=
    if provChanged then { report with provenanceUnions := report.provenanceUnions + 1 } else report
  (store, report)

def mergeArchive (store : CorpusStore) (archive : CorpusArchive) (policy : EngineVersionPolicy)
    (currentEngine : String) (dryRun : Bool) : Except ArchiveError MergeReport × CorpusStore :=
  match archive.verify sha256 with
  | .error e => (.error e, store)
  | .ok () =>
    let engineCompatible := archive.manifest.engineVersion == currentEngine
    let report : MergeReport :=
      { archiveId := archive.manifest.manifestHash
        engineVersion := archive.manifest.engineVersion
        engineCompatible
        added := 0
        duplicates := 0
        provenanceUnions := 0
        versionSkipped := 0
        dryRun }
    let packed := archive.manifest.entries.zip archive.seeds
    let merge : Except ArchiveError MergeReport × CorpusStore :=
      if dryRun then (.ok (packed.foldl (dryRunStep store) report), store)
      else
        let (store, report) := packed.foldl (mergeStep sha256) (store, report)
        (.ok report, store)
    match engineCompatible, policy with
    | false, .requireExact =>
      (.error (.engineMismatch archive.manifest.engineVersion currentEngine), store)
    | false, .allowCompatible => (.ok { report with versionSkipped := archive.seeds.length }, store)
    | _, _ => merge

variable {sha256}

theorem holds_iff {store : CorpusStore} {seed : CaseSeed} : store.holds seed = true ↔ seed ∈ store.seeds := by
  rw [holds, List.any_eq_true]
  constructor
  · rintro ⟨s, hs, heq⟩
    rw [Bool.and_eq_true, beq_iff_eq, beq_iff_eq] at heq
    have : s = seed := by cases s; cases seed; simp_all
    rwa [← this]
  · intro h
    exact ⟨seed, h, by simp⟩

theorem mem_foldl_addTag {entry : List String × Bool} {tags : List String} {t : String} :
    t ∈ (tags.foldl addTag entry).1 ↔ t ∈ entry.1 ∨ t ∈ tags := by
  induction tags generalizing entry with
  | nil => simp
  | cons tag tags ih =>
    rw [List.foldl_cons, ih, addTag, List.mem_cons]
    split_ifs with h
    · constructor
      · tauto
      · rintro (ht | rfl | ht)
        · exact Or.inl ht
        · exact Or.inl h
        · exact Or.inr ht
    · rw [List.mem_append, List.mem_singleton, or_assoc]

theorem foldl_addTag_changed {entry : List String × Bool} {tags : List String} :
    (tags.foldl addTag entry).2 = true ↔ entry.2 = true ∨ ∃ t ∈ tags, t ∉ entry.1 := by
  induction tags generalizing entry with
  | nil => simp
  | cons tag tags ih =>
    rw [List.foldl_cons, ih, addTag, List.exists_mem_cons_iff]
    split_ifs with h
    · simp only [h, not_true_eq_false, false_or]
    · simp only [h, not_false_eq_true, true_or, or_true]

theorem insert_seeds (store : CorpusStore) (seed : CaseSeed) (tags : List String) :
    (insert sha256 store seed tags).1.seeds = addNew store.seeds seed := by
  unfold insert addNew
  simp only [holds_iff]
  split_ifs <;> rfl

theorem insert_added (store : CorpusStore) (seed : CaseSeed) (tags : List String) :
    (insert sha256 store seed tags).2.1 = true ↔ seed ∉ store.seeds := by
  unfold insert
  simp only [holds_iff]
  split_ifs with h <;> simp [h]

theorem insert_provChanged (store : CorpusStore) (seed : CaseSeed) (tags : List String) :
    (insert sha256 store seed tags).2.2 = true ↔
      ∃ t ∈ tags, t ∉ store.tagsFor (seedContentHash sha256 seed) := by
  have hchanged := @foldl_addTag_changed (store.tagsFor (seedContentHash sha256 seed), false) tags
  unfold insert
  simp only [holds_iff]
  split_ifs <;> simpa using hchanged

theorem insert_provenance (store : CorpusStore) (seed : CaseSeed) (tags : List String) :
    (insert sha256 store seed tags).1.provenance =
      store.provenance.insert (seedContentHash sha256 seed)
        (sortDedup (store.tagsFor (seedContentHash sha256 seed) ++ tags)) := by
  have hcanon : sortDedup (tags.foldl addTag (store.tagsFor (seedContentHash sha256 seed), false)).1 =
      sortDedup (store.tagsFor (seedContentHash sha256 seed) ++ tags) := by
    apply sortDedup_eq_iff.mpr
    intro t
    rw [mem_foldl_addTag, List.mem_append]
  unfold insert
  simp only [holds_iff, hcanon]
  split_ifs <;> rfl

theorem insert_lookup (store : CorpusStore) (seed : CaseSeed) (tags : List String) (hash : String) :
    (insert sha256 store seed tags).1.provenance[hash]? =
      if seedContentHash sha256 seed = hash then some (sortDedup (store.tagsFor hash ++ tags))
      else store.provenance[hash]? := by
  rw [insert_provenance]
  by_cases h : seedContentHash sha256 seed = hash
  · subst h
    rw [if_pos rfl, getElem?_insert_self]
  · rw [if_neg h, getElem?_insert_of_ne _ _ h]

theorem mem_insert_tagsFor (store : CorpusStore) (seed : CaseSeed) (tags : List String) (hash t : String) :
    t ∈ (insert sha256 store seed tags).1.tagsFor hash ↔
      t ∈ store.tagsFor hash ∨ (seedContentHash sha256 seed = hash ∧ t ∈ tags) := by
  rw [tagsFor, insert_lookup]
  split_ifs with h
  · simp [h]
  · simp [h, tagsFor]

def absorb (sha256 : List UInt8 → List UInt8) (store : CorpusStore)
    (packed : List (ArchiveEntry × CaseSeed)) : CorpusStore :=
  packed.foldl (fun store p => (insert sha256 store p.2 p.1.tags).1) store

theorem absorb_append (store : CorpusStore) (packed packed' : List (ArchiveEntry × CaseSeed)) :
    absorb sha256 store (packed ++ packed') = absorb sha256 (absorb sha256 store packed) packed' :=
  List.foldl_append

theorem foldl_mergeStep_store (state : CorpusStore × MergeReport)
    (packed : List (ArchiveEntry × CaseSeed)) :
    (packed.foldl (mergeStep sha256) state).1 = absorb sha256 state.1 packed := by
  induction packed generalizing state with
  | nil => rfl
  | cons p packed ih =>
    rw [List.foldl_cons, ih]
    rfl

theorem absorb_seeds (store : CorpusStore) (packed : List (ArchiveEntry × CaseSeed)) :
    (absorb sha256 store packed).seeds = addAllNew store.seeds (packed.map Prod.snd) := by
  induction packed generalizing store with
  | nil => rfl
  | cons p packed ih =>
    have hcons : absorb sha256 store (p :: packed) =
        absorb sha256 (insert sha256 store p.2 p.1.tags).1 packed := rfl
    rw [hcons, ih, insert_seeds]
    rfl

theorem mem_absorb_tagsFor (store : CorpusStore) (packed : List (ArchiveEntry × CaseSeed))
    (hash t : String) :
    t ∈ (absorb sha256 store packed).tagsFor hash ↔
      t ∈ store.tagsFor hash ∨ ∃ p ∈ packed, seedContentHash sha256 p.2 = hash ∧ t ∈ p.1.tags := by
  induction packed generalizing store with
  | nil => simp [absorb]
  | cons p packed ih =>
    have hcons : absorb sha256 store (p :: packed) =
        absorb sha256 (insert sha256 store p.2 p.1.tags).1 packed := rfl
    rw [hcons, ih, mem_insert_tagsFor, List.exists_mem_cons_iff, or_assoc]

theorem absorb_lookup (store : CorpusStore) (packed : List (ArchiveEntry × CaseSeed)) (hash : String) :
    (absorb sha256 store packed).provenance[hash]? =
      if ∃ p ∈ packed, seedContentHash sha256 p.2 = hash then
        some (sortDedup ((absorb sha256 store packed).tagsFor hash))
      else store.provenance[hash]? := by
  induction packed generalizing store with
  | nil => simp [absorb]
  | cons p packed ih =>
    have hcons : absorb sha256 store (p :: packed) =
        absorb sha256 (insert sha256 store p.2 p.1.tags).1 packed := rfl
    rw [hcons, ih, insert_lookup]
    simp only [List.exists_mem_cons_iff]
    by_cases hrest : ∃ q ∈ packed, seedContentHash sha256 q.2 = hash
    · rw [if_pos hrest, if_pos (Or.inr hrest)]
    · by_cases hp : seedContentHash sha256 p.2 = hash
      · rw [if_neg hrest, if_pos hp, if_pos (Or.inl hp)]
        congr 1
        apply sortDedup_eq_iff.mpr
        intro t
        rw [List.mem_append, mem_absorb_tagsFor, mem_insert_tagsFor]
        constructor
        · rintro (h | h)
          · exact Or.inl (Or.inl h)
          · exact Or.inl (Or.inr ⟨hp, h⟩)
        · rintro ((h | h) | ⟨q, hq, hhash, _⟩)
          · exact Or.inl h
          · exact Or.inr h.2
          · exact absurd ⟨q, hq, hhash⟩ hrest
      · rw [if_neg hrest, if_neg hp, if_neg (not_or.mpr ⟨hp, hrest⟩)]

def Passes (sha256 : List UInt8 → List UInt8) (archive : CorpusArchive) (policy : EngineVersionPolicy)
    (currentEngine : String) : Prop :=
  archive.verify sha256 = .ok () ∧ (archive.manifest.engineVersion = currentEngine ∨ policy = .ignore)

def startReport (archive : CorpusArchive) (currentEngine : String) (dryRun : Bool) : MergeReport where
  archiveId := archive.manifest.manifestHash
  engineVersion := archive.manifest.engineVersion
  engineCompatible := archive.manifest.engineVersion == currentEngine
  added := 0
  duplicates := 0
  provenanceUnions := 0
  versionSkipped := 0
  dryRun

def packedOf (archive : CorpusArchive) : List (ArchiveEntry × CaseSeed) :=
  archive.manifest.entries.zip archive.seeds

theorem mergeArchive_of_passes {store : CorpusStore} {archive : CorpusArchive} {policy : EngineVersionPolicy}
    {currentEngine : String} (h : Passes sha256 archive policy currentEngine) (dryRun : Bool) :
    mergeArchive sha256 store archive policy currentEngine dryRun =
      if dryRun then
        (.ok ((packedOf archive).foldl (dryRunStep store) (startReport archive currentEngine true)), store)
      else
        (.ok ((packedOf archive).foldl (mergeStep sha256)
          (store, startReport archive currentEngine false)).2, absorb sha256 store (packedOf archive)) := by
  obtain ⟨hverify, hengine⟩ := h
  unfold mergeArchive
  rw [hverify]
  have hstore := @foldl_mergeStep_store sha256 (store, startReport archive currentEngine false) (packedOf archive)
  rcases hengine with hengine | rfl
  · have hcompatible : (archive.manifest.engineVersion == currentEngine) = true := beq_iff_eq.mpr hengine
    cases dryRun
    · rw [← hstore]
      simp only [startReport, packedOf, hcompatible]
      rfl
    · simp only [startReport, packedOf, hcompatible]
      rfl
  · cases dryRun
    · rw [← hstore]
      cases hcompatible : archive.manifest.engineVersion == currentEngine <;>
        simp only [startReport, packedOf, hcompatible] <;> rfl
    · cases hcompatible : archive.manifest.engineVersion == currentEngine <;>
        simp only [startReport, packedOf, hcompatible] <;> rfl

theorem mergeArchive_of_not_passes {store : CorpusStore} {archive : CorpusArchive}
    {policy : EngineVersionPolicy} {currentEngine : String} (h : ¬Passes sha256 archive policy currentEngine)
    (dryRun : Bool) :
    (mergeArchive sha256 store archive policy currentEngine dryRun).2 = store ∧
      (mergeArchive sha256 store archive policy currentEngine dryRun).1.map ({ · with dryRun := false }) =
        (mergeArchive sha256 store archive policy currentEngine false).1 := by
  unfold mergeArchive
  cases hverify : archive.verify sha256 with
  | error e => exact ⟨rfl, rfl⟩
  | ok u =>
    cases hcompatible : archive.manifest.engineVersion == currentEngine with
    | true => exact absurd ⟨hverify, Or.inl (beq_iff_eq.mp hcompatible)⟩ h
    | false =>
      cases policy with
      | requireExact => exact ⟨rfl, rfl⟩
      | allowCompatible => exact ⟨rfl, rfl⟩
      | ignore => exact absurd ⟨hverify, Or.inr rfl⟩ h

end CorpusStore

end CrashLab.Archive
