import CrashLab.CorpusStore

namespace CrashLab.Archive.CorpusStore

open Occurrences

abbrev Packed := ArchiveEntry × CaseSeed

variable (sha256 : List UInt8 → List UInt8) (store : CorpusStore)

def Untold (p : Packed) : Prop := ∃ t ∈ p.1.tags, t ∉ store.tagsFor (seedContentHash sha256 p.2)

def Tells (earlier : List Packed) (p : Packed) : Prop :=
  ∃ t ∈ p.1.tags, t ∉ store.tagsFor (seedContentHash sha256 p.2) ∧
    ∀ q ∈ earlier, seedContentHash sha256 q.2 = seedContentHash sha256 p.2 → t ∉ q.1.tags

def Fresh (p : Packed) : Prop := p.2 ∉ store.seeds

def Seen (earlier : List Packed) (p : Packed) : Prop := p.2 ∈ earlier.map Prod.snd

instance (p : Packed) : Decidable (Untold sha256 store p) := inferInstanceAs (Decidable (∃ _ ∈ _, _))

instance (earlier : List Packed) (p : Packed) : Decidable (Tells sha256 store earlier p) :=
  inferInstanceAs (Decidable (∃ _ ∈ _, _))

instance (p : Packed) : Decidable (Fresh store p) := inferInstanceAs (Decidable (¬_))

instance (earlier : List Packed) (p : Packed) : Decidable (Seen earlier p) :=
  inferInstanceAs (Decidable (_ ∈ _))

def addCounts (report : MergeReport) (added duplicates unions : ℕ) : MergeReport :=
  { report with
    added := report.added + added
    duplicates := report.duplicates + duplicates
    provenanceUnions := report.provenanceUnions + unions }

variable {sha256} {store}

theorem tells_untold {earlier : List Packed} {p : Packed} (h : Tells sha256 store earlier p) :
    Untold sha256 store p := by
  obtain ⟨t, ht, hstore, _⟩ := h
  exact ⟨t, ht, hstore⟩

theorem tells_iff {earlier : List Packed} {p : Packed} :
    Tells sha256 store earlier p ↔
      ∃ t ∈ p.1.tags, t ∉ (absorb sha256 store earlier).tagsFor (seedContentHash sha256 p.2) := by
  unfold Tells
  apply exists_congr
  intro t
  rw [mem_absorb_tagsFor, not_or]
  push Not
  rfl

theorem dryRunStep_eq {report : MergeReport} {p : Packed}
    (h : p.1.contentHash = seedContentHash sha256 p.2) :
    dryRunStep store report p =
      addCounts report (if Fresh store p then 1 else 0) (if ¬Fresh store p then 1 else 0)
        (if ¬Fresh store p ∧ Untold sha256 store p then 1 else 0) := by
  have huntold : (p.1.tags.any (· ∉ store.tagsFor p.1.contentHash)) = true ↔ Untold sha256 store p := by
    rw [List.any_eq_true, h, Untold]
    simp only [decide_eq_true_eq]
  unfold dryRunStep
  by_cases hstored : p.2 ∈ store.seeds
  · have hfresh : ¬Fresh store p := not_not.mpr hstored
    rw [if_pos (holds_iff.mpr hstored)]
    simp only [huntold]
    by_cases hp : Untold sha256 store p <;> simp [hfresh, hp, addCounts]
  · have hfresh : Fresh store p := hstored
    rw [if_neg fun hh => hstored (holds_iff.mp hh)]
    simp [hfresh, addCounts]

theorem mergeStep_eq {report : MergeReport} {earlier : List Packed} {p : Packed} :
    (mergeStep sha256 (absorb sha256 store earlier, report) p).2 =
      addCounts report (if Fresh store p ∧ ¬Seen earlier p then 1 else 0)
        (if ¬(Fresh store p ∧ ¬Seen earlier p) then 1 else 0)
        (if Tells sha256 store earlier p then 1 else 0) := by
  have hadded : (insert sha256 (absorb sha256 store earlier) p.2 p.1.tags).2.1 = true ↔
      Fresh store p ∧ ¬Seen earlier p := by
    rw [insert_added, absorb_seeds, mem_addAllNew, not_or]
    rfl
  have hchanged : (insert sha256 (absorb sha256 store earlier) p.2 p.1.tags).2.2 = true ↔
      Tells sha256 store earlier p := by
    rw [insert_provChanged, tells_iff]
  unfold mergeStep
  simp only [hadded, hchanged]
  by_cases hnew : Fresh store p ∧ ¬Seen earlier p <;> by_cases htells : Tells sha256 store earlier p <;>
    simp [hnew, htells, addCounts]

theorem addCounts_addCounts (report : MergeReport) (a b c a' b' c' : ℕ) :
    addCounts (addCounts report a b c) a' b' c' = addCounts report (a + a') (b + b') (c + c') := by
  simp only [addCounts, Nat.add_assoc]

theorem dryRun_report {packed : List Packed}
    (h : ∀ p ∈ packed, p.1.contentHash = seedContentHash sha256 p.2) (earlier : List Packed)
    (report : MergeReport) :
    packed.foldl (dryRunStep store) report =
      addCounts report (countAfter (fun _ p => Fresh store p) earlier packed)
        (countAfter (fun _ p => ¬Fresh store p) earlier packed)
        (countAfter (fun _ p => ¬Fresh store p ∧ Untold sha256 store p) earlier packed) := by
  induction packed generalizing earlier report with
  | nil => rfl
  | cons p packed ih =>
    rw [List.forall_mem_cons] at h
    rw [List.foldl_cons, ih h.2 (earlier ++ [p]), dryRunStep_eq h.1, addCounts_addCounts]
    rfl

theorem merge_report (packed earlier : List Packed) (report : MergeReport) :
    (packed.foldl (mergeStep sha256) (absorb sha256 store earlier, report)).2 =
      addCounts report (countAfter (fun e p => Fresh store p ∧ ¬Seen e p) earlier packed)
        (countAfter (fun e p => ¬(Fresh store p ∧ ¬Seen e p)) earlier packed)
        (countAfter (Tells sha256 store) earlier packed) := by
  induction packed generalizing earlier report with
  | nil => rfl
  | cons p packed ih =>
    have hstate : mergeStep sha256 (absorb sha256 store earlier, report) p =
        (absorb sha256 store (earlier ++ [p]),
          (mergeStep sha256 (absorb sha256 store earlier, report) p).2) := by
      rw [absorb_append]
      rfl
    rw [List.foldl_cons, hstate, ih, mergeStep_eq, addCounts_addCounts]
    rfl

theorem countAfter_seen_eq_zero_iff {packed : List Packed} :
    countAfter (fun e p => Fresh store p ∧ Seen e p) [] packed = 0 ↔
      ((packed.map Prod.snd).filter (· ∉ store.seeds)).Nodup := by
  rw [countAfter_eq_zero_iff]
  simp only [List.nil_append]
  constructor
  · intro h
    induction packed using List.reverseRecOn with
    | nil => exact List.nodup_nil
    | append_singleton packed p ih =>
      have hnewcomers : ((packed.map Prod.snd).filter (· ∉ store.seeds)).Nodup := by
        apply ih
        rintro before q after rfl
        exact h before q (after ++ [p]) (by simp)
      have hlast := h packed p [] rfl
      rw [List.map_append, List.filter_append, List.map_singleton, List.filter_singleton]
      by_cases hfresh : p.2 ∈ store.seeds
      · simpa [hfresh] using hnewcomers
      · have hseen : p.2 ∉ packed.map Prod.snd := fun hmem => hlast ⟨hfresh, hmem⟩
        simp only [hfresh, not_false_eq_true, decide_true, cond_true]
        apply List.Nodup.append hnewcomers (List.nodup_singleton _)
        rw [List.disjoint_singleton]
        intro hmem
        exact hseen (List.mem_filter.mp hmem).1
  · rintro h before p after rfl ⟨hfresh, hseen⟩
    have hkept : ∀ l : List CaseSeed, p.2 ∈ l → p.2 ∈ l.filter (· ∉ store.seeds) := fun l hl =>
      List.mem_filter.mpr ⟨hl, decide_eq_true hfresh⟩
    rw [List.map_append, List.filter_append, List.nodup_append] at h
    exact h.2.2 p.2 (hkept _ hseen) p.2 (hkept _ (by simp)) rfl

variable (sha256) (store)

/-- No seed new to the store is packed twice, and the entries of new seeds that tell a tag are as many
as the entries of stored seeds whose untold tags were all told by entries before them. -/
def CountsAlike (packed : List Packed) : Prop :=
  ((packed.map Prod.snd).filter (· ∉ store.seeds)).Nodup ∧
    countAfter (fun e p => Tells sha256 store e p ∧ Fresh store p) [] packed =
      countAfter (fun e p => (¬Fresh store p ∧ Untold sha256 store p) ∧ ¬Tells sha256 store e p) [] packed

def DryRunPredicts (archive : CorpusArchive) (policy : EngineVersionPolicy) (currentEngine : String) : Prop :=
  (mergeArchive sha256 store archive policy currentEngine true).1.map ({ · with dryRun := false }) =
      (mergeArchive sha256 store archive policy currentEngine false).1 ∧
    (mergeArchive sha256 store archive policy currentEngine true).2 = store

variable {sha256} {store}

theorem added_eq_iff {packed : List Packed} :
    countAfter (fun _ p => Fresh store p) [] packed =
        countAfter (fun e p => Fresh store p ∧ ¬Seen e p) [] packed ↔
      ((packed.map Prod.snd).filter (· ∉ store.seeds)).Nodup := by
  rw [← countAfter_seen_eq_zero_iff, countAfter_split (fun _ p => Fresh store p) Seen]
  omega

theorem unions_eq_iff {packed : List Packed} :
    countAfter (fun _ p => ¬Fresh store p ∧ Untold sha256 store p) [] packed =
        countAfter (Tells sha256 store) [] packed ↔
      countAfter (fun e p => Tells sha256 store e p ∧ Fresh store p) [] packed =
        countAfter (fun e p => (¬Fresh store p ∧ Untold sha256 store p) ∧ ¬Tells sha256 store e p) [] packed := by
  have hdry := countAfter_split (fun _ p => ¬Fresh store p ∧ Untold sha256 store p) (Tells sha256 store)
    [] packed
  have hreal := countAfter_split (Tells sha256 store) (fun _ p => Fresh store p) [] packed
  have hboth : countAfter (fun e p => (¬Fresh store p ∧ Untold sha256 store p) ∧ Tells sha256 store e p) [] packed =
      countAfter (fun e p => Tells sha256 store e p ∧ ¬Fresh store p) [] packed := by
    apply countAfter_congr
    intro e p
    constructor
    · rintro ⟨⟨hfresh, _⟩, htells⟩
      exact ⟨htells, hfresh⟩
    · rintro ⟨htells, hfresh⟩
      exact ⟨⟨hfresh, tells_untold htells⟩, htells⟩
  rw [hdry, hreal, hboth]
  omega

theorem packedOf_contentHash {archive : CorpusArchive} (h : archive.verify sha256 = .ok ()) :
    ∀ p ∈ packedOf archive, p.1.contentHash = seedContentHash sha256 p.2 := by
  intro p hp
  exact ((CorpusArchive.verify_ok_iff.mp h).entries p hp).contentHash

theorem reports_eq_iff {report : MergeReport} {packed : List Packed}
    (h : ∀ p ∈ packed, p.1.contentHash = seedContentHash sha256 p.2) :
    packed.foldl (dryRunStep store) report = (packed.foldl (mergeStep sha256) (store, report)).2 ↔
      CountsAlike sha256 store packed := by
  have hreal := @merge_report sha256 store packed [] report
  rw [dryRun_report h [], show (store, report) = (absorb sha256 store [], report) from rfl, hreal]
  have hduplicates := countAfter_add_not (fun _ p => Fresh store p) [] packed
  have hduplicates' := countAfter_add_not (fun e p => Fresh store p ∧ ¬Seen e p) [] packed
  rw [CountsAlike, ← added_eq_iff, ← unions_eq_iff]
  simp only [addCounts, MergeReport.mk.injEq, true_and, and_true, Nat.add_left_cancel_iff]
  constructor
  · rintro ⟨hadded, _, hunions⟩
    exact ⟨hadded, hunions⟩
  · rintro ⟨hadded, hunions⟩
    exact ⟨hadded, by omega, hunions⟩

theorem foldl_dryRunStep_dryRun (report : MergeReport) (packed : List Packed) (flag : Bool) :
    { packed.foldl (dryRunStep store) report with dryRun := flag } =
      packed.foldl (dryRunStep store) { report with dryRun := flag } := by
  induction packed generalizing report with
  | nil => rfl
  | cons p packed ih =>
    rw [List.foldl_cons, ih, List.foldl_cons]
    congr 1
    unfold dryRunStep
    simp only
    split_ifs <;> rfl

theorem dryRun_predicts_iff (sha256 : List UInt8 → List UInt8) (store : CorpusStore)
    (archive : CorpusArchive) (policy : EngineVersionPolicy) (currentEngine : String) :
    DryRunPredicts sha256 store archive policy currentEngine ↔
      (Passes sha256 archive policy currentEngine → CountsAlike sha256 store (packedOf archive)) := by
  unfold DryRunPredicts
  by_cases h : Passes sha256 archive policy currentEngine
  · rw [mergeArchive_of_passes h, mergeArchive_of_passes h, if_pos rfl, if_neg Bool.false_ne_true]
    have hflag := @foldl_dryRunStep_dryRun store (startReport archive currentEngine true) (packedOf archive) false
    rw [Except.map, hflag, Except.ok.injEq]
    have hreports := @reports_eq_iff sha256 store (startReport archive currentEngine false) _
      (packedOf_contentHash h.1)
    constructor
    · rintro ⟨hreport, _⟩ _
      exact hreports.mp hreport
    · intro halike
      exact ⟨hreports.mpr (halike h), rfl⟩
  · obtain ⟨hstore, hreport⟩ := @mergeArchive_of_not_passes sha256 store _ _ _ h true
    exact ⟨fun _ hpasses => absurd hpasses h, fun _ => ⟨hreport, hstore⟩⟩

def taggedNewcomer (sha256 : List UInt8 → List UInt8) : CorpusArchive :=
  CorpusArchive.buildTagged sha256 [⟨⟨1, [1]⟩, ["team-a"]⟩] [] none

theorem dryRun_misses_newcomer_tags :
    ¬∃ sha256, DryRunPredicts sha256 CorpusStore.new (taggedNewcomer sha256) .allowCompatible
      currentEngineVersion := by
  rintro ⟨sha256, h⟩
  have hpasses : Passes sha256 (taggedNewcomer sha256) .allowCompatible currentEngineVersion :=
    ⟨CorpusArchive.verify_ok_iff.mpr (CorpusArchive.buildTagged_verified _ _ _), Or.inl rfl⟩
  have hpacked : packedOf (taggedNewcomer sha256) =
      [(packEntry sha256 ⟨⟨1, [1]⟩, ["team-a"]⟩, ⟨1, [1]⟩)] := rfl
  rw [DryRunPredicts, mergeArchive_of_passes hpasses, mergeArchive_of_passes hpasses, hpacked] at h
  have hreports := Except.ok.inj h.1
  have hunions := congrArg MergeReport.provenanceUnions hreports
  have htags : (packEntry sha256 ⟨⟨1, [1]⟩, ["team-a"]⟩).tags = ["team-a"] := by
    simp only [packEntry]
    decide
  simp [dryRunStep, mergeStep, insert, holds, CorpusStore.new, startReport, htags, addTag, tagsFor] at hunions

end CrashLab.Archive.CorpusStore
