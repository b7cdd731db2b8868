import CrashLab.CampaignTimeline

namespace CrashLab.CampaignTimeline

open JsStrings Sorting

section Accounts

variable (dateParse : JsString → Option ℤ) (input : BuildCampaignTimelineInput)

def holds (buckets : List CampaignTimelineBucket) (k : ℕ) (at_ : ℤ) : Bool :=
  match buckets[k]? with
  | none => false
  | some bucket => bucket.start ≤ at_ ∧ (at_ < bucket.stop ∨ k + 1 = buckets.length ∧ at_ = bucket.stop)

def samplesAt (p : ℤ → Bool) : List CampaignTimelineSample :=
  input.samples.filter fun sample => (parseTime dateParse (some sample.at_)).any p

def countAt (p : ℤ → Bool) (count : CampaignTimelineSample → ℤ) : ℤ :=
  ((samplesAt dateParse input p).map fun sample => nonNegative (count sample)).sum

structure Accounts (series : CampaignTimelineSeries) : Prop where
  bounded : series.buckets.length = series.bucketCount ∧ series.bucketCount ≤ clampBucketCount input.buckets ∧
    clampBucketCount input.buckets ≤ maxTimelineBuckets
  opens : series.buckets.head?.map CampaignTimelineBucket.start = some series.start
  closes : series.buckets.getLast?.map CampaignTimelineBucket.stop = some series.stop
  forward : ∀ bucket ∈ series.buckets, bucket.start < bucket.stop
  contiguous : ∀ k bucket next, series.buckets[k]? = some bucket → series.buckets[k + 1]? = some next →
    bucket.stop = next.start
  counted : ∀ at_, series.start ≤ at_ → at_ ≤ series.stop → ∃! k, holds series.buckets k at_ = true
  filled : ∀ k bucket, series.buckets[k]? = some bucket →
    bucket.seeds = countAt dateParse input (holds series.buckets k) CampaignTimelineSample.seeds ∧
      bucket.failures = countAt dateParse input (holds series.buckets k) CampaignTimelineSample.failures
  sampled : series.sampledPoints =
    (samplesAt dateParse input fun at_ => series.start ≤ at_ ∧ at_ ≤ series.stop).length
  seeds : (series.buckets.map CampaignTimelineBucket.seeds).sum = series.summary.seeds
  failures : (series.buckets.map CampaignTimelineBucket.failures).sum = series.summary.failures

variable {dateParse input}

theorem readSamples_perm {β : Type*} (p : ℤ → Bool) {f : RawSample → β} {g : CampaignTimelineSample → β}
    (h : ∀ sample raw, rawSample dateParse sample = some raw → f raw = g sample) :
    (((readSamples dateParse input).filter fun raw => p raw.at_).map f).Perm
      ((samplesAt dateParse input p).map g) := by
  refine (((sortByKey_perm RawSample.at_ _).filter fun raw => p raw.at_).map f).trans (List.Perm.of_eq ?_)
  rw [samplesAt]
  induction input.samples with
  | nil => rfl
  | cons sample samples ih =>
    cases hread : parseTime dateParse (some sample.at_) with
    | none =>
      have hraw : rawSample dateParse sample = none := by rw [rawSample, hread]; rfl
      rw [List.filterMap_cons_none hraw, List.filter_cons_of_neg (by simp [hread]), ih]
    | some at_ =>
      obtain ⟨raw, hraw, hat⟩ : ∃ raw, rawSample dateParse sample = some raw ∧ raw.at_ = at_ := by
        rw [rawSample, hread]
        exact ⟨_, rfl, rfl⟩
      rw [List.filterMap_cons_some hraw]
      by_cases hp : p at_ = true
      · rw [List.filter_cons_of_pos (by rwa [hat]), List.filter_cons_of_pos (by simpa [hread] using hp), List.map_cons,
          List.map_cons, ih, h sample raw hraw]
      · rw [List.filter_cons_of_neg (by rwa [hat]), List.filter_cons_of_neg (by simpa [hread] using hp), ih]

theorem rawSample_eq {sample : CampaignTimelineSample} {raw : RawSample} (h : rawSample dateParse sample = some raw) :
    parseTime dateParse (some sample.at_) = some raw.at_ ∧ raw.seeds = nonNegative sample.seeds ∧
      raw.failures = nonNegative sample.failures ∧ raw.signatures = uniqueSignatures sample.signatures := by
  obtain ⟨at_, hread, rfl⟩ := Option.map_eq_some_iff.mp h
  exact ⟨hread, rfl, rfl, rfl⟩

theorem holds_eq (samples : List RawSample) {grid : Grid} (sound : grid.Sound) (k : ℕ) (at_ : ℤ) :
    holds ((List.range grid.bucketCount).map (filledBucket grid samples)) k at_ = true ↔
      grid.bucketIndex at_ = some k := by
  rw [Grid.bucketIndex_eq_some_iff sound, holds, List.getElem?_map]
  by_cases hk : k < grid.bucketCount
  · rw [List.getElem?_range hk, Option.map_some, and_iff_right hk]
    simp [filledBucket, closeBucket, gather]
  · rw [List.getElem?_eq_none (by simpa using hk)]
    exact iff_of_false Bool.false_ne_true fun h => hk h.1

theorem clampBucketCount_bounds (requested : RequestedBuckets) :
    0 < clampBucketCount requested ∧ clampBucketCount requested ≤ maxTimelineBuckets := by
  cases requested with
  | undefined => decide
  | notFinite => decide
  | finite requested =>
    rw [clampBucketCount]
    constructor
    · apply lt_min
      · decide
      · omega
    · exact min_le_left ..

theorem timelineGrid_sound : (timelineGrid dateParse input).Sound := Grid.ofRange_sound ..

theorem filledBucket_seeds (grid : Grid) (samples : List RawSample) (k : ℕ) :
    (filledBucket grid samples k).seeds = ((samplesIn grid samples k).map RawSample.seeds).sum := zero_add _

theorem filledBucket_failures (grid : Grid) (samples : List RawSample) (k : ℕ) :
    (filledBucket grid samples k).failures = ((samplesIn grid samples k).map RawSample.failures).sum := zero_add _

theorem getElem?_eq_filledBucket {grid : Grid} {samples : List RawSample} {k : ℕ} {bucket : CampaignTimelineBucket}
    (h : ((List.range grid.bucketCount).map (filledBucket grid samples))[k]? = some bucket) :
    k < grid.bucketCount ∧ bucket = filledBucket grid samples k := by
  rw [List.getElem?_map, Option.map_eq_some_iff] at h
  obtain ⟨j, hj, rfl⟩ := h
  obtain ⟨hk, hj⟩ := List.getElem?_eq_some_iff.mp hj
  rw [List.getElem_range] at hj
  rw [List.length_range] at hk
  exact ⟨hk, by rw [hj]⟩

theorem samplesIn_eq_holds {grid : Grid} (sound : grid.Sound) (samples : List RawSample) (k : ℕ) :
    samplesIn grid samples k = samples.filter fun raw =>
      holds ((List.range grid.bucketCount).map (filledBucket grid samples)) k raw.at_ := by
  apply List.filter_congr
  intro raw hraw
  rw [Bool.eq_iff_iff, decide_eq_true_iff, holds_eq samples sound]

theorem buildCampaignTimeline_buckets : (buildCampaignTimeline dateParse input).buckets =
    (List.range (timelineGrid dateParse input).bucketCount).map
      (filledBucket (timelineGrid dateParse input) (readSamples dateParse input)) := buckets_eq ..

theorem buildCampaignTimeline_accounts : Accounts dateParse input (buildCampaignTimeline dateParse input) := by
  have sound : (timelineGrid dateParse input).Sound := timelineGrid_sound
  have hclamp := clampBucketCount_bounds input.buckets
  have hcount := sound.some_bucket
  constructor
  case bounded =>
    rw [buildCampaignTimeline_buckets, List.length_map, List.length_range]
    exact ⟨rfl, Grid.ofRange_bucketCount_le _ _ hclamp.1, hclamp.2⟩
  case opens =>
    have hstart : (timelineGrid dateParse input).bucketStart 0 = (timelineGrid dateParse input).start := by
      simp [Grid.bucketStart]
    rw [buildCampaignTimeline_buckets, List.head?_map, List.head?_range, if_neg (Nat.ne_of_gt hcount)]
    exact congrArg some hstart
  case closes =>
    rw [buildCampaignTimeline_buckets, List.getLast?_map, List.getLast?_range, if_neg (Nat.ne_of_gt hcount)]
    exact congrArg some (Grid.bucketEnd_last sound (by omega))
  case forward =>
    intro bucket hbucket
    rw [buildCampaignTimeline_buckets] at hbucket
    obtain ⟨k, hk, rfl⟩ := List.mem_map.mp hbucket
    exact Grid.bucketStart_lt sound (List.mem_range.mp hk)
  case contiguous =>
    intro k bucket next hbucket hnext
    rw [buildCampaignTimeline_buckets] at hbucket hnext
    obtain ⟨-, rfl⟩ := getElem?_eq_filledBucket hbucket
    obtain ⟨hk, rfl⟩ := getElem?_eq_filledBucket hnext
    exact Grid.bucketEnd_of_lt sound hk
  case counted =>
    intro at_ hlow hhigh
    rw [buildCampaignTimeline_buckets]
    simp only [holds_eq _ sound]
    cases hindex : (timelineGrid dateParse input).bucketIndex at_ with
    | none => exact absurd ⟨hlow, hhigh⟩ (Grid.bucketIndex_eq_none_iff.mp hindex)
    | some k => exact ⟨k, rfl, fun j hj => (Option.some.inj hj).symm⟩
  case filled =>
    intro k bucket hbucket
    rw [buildCampaignTimeline_buckets] at hbucket ⊢
    obtain ⟨-, rfl⟩ := getElem?_eq_filledBucket hbucket
    rw [filledBucket_seeds, filledBucket_failures, samplesIn_eq_holds sound]
    constructor
    · exact (readSamples_perm _ fun sample raw h => (rawSample_eq h).2.1).sum_eq
    · exact (readSamples_perm _ fun sample raw h => (rawSample_eq h).2.2.1).sum_eq
  case sampled =>
    have hpoints := fold_sampledPoints (timelineGrid dateParse input) (readSamples dateParse input)
      (emptyFilling (timelineGrid dateParse input))
    have hinside (raw : RawSample) : (decide ((timelineGrid dateParse input).bucketIndex raw.at_ ≠ none)) =
        decide ((timelineGrid dateParse input).start ≤ raw.at_ ∧ raw.at_ ≤ (timelineGrid dateParse input).stop) := by
      rw [decide_eq_decide, ne_eq, Grid.bucketIndex_eq_none_iff, not_not]
    have hlength (p : ℤ → Bool) : (((readSamples dateParse input).filter fun raw => p raw.at_).map fun _ => ()).length =
        ((samplesAt dateParse input p).map fun _ => ()).length :=
      (readSamples_perm p fun _ _ _ => rfl).length_eq
    simp only [List.length_map] at hlength
    have hlength := hlength fun at_ =>
      (timelineGrid dateParse input).start ≤ at_ ∧ at_ ≤ (timelineGrid dateParse input).stop
    simp only [hinside, List.countP_eq_length_filter, hlength] at hpoints
    exact hpoints.trans (Nat.zero_add _)
  case seeds =>
    have hfilled : CampaignTimelineBucket.seeds ∘ filledBucket (timelineGrid dateParse input) (readSamples dateParse input) =
        fun k => ((samplesIn (timelineGrid dateParse input) (readSamples dateParse input) k).map RawSample.seeds).sum := by
      funext k
      exact filledBucket_seeds ..
    rw [buildCampaignTimeline_buckets, List.map_map, hfilled]
    exact sum_samplesIn sound RawSample.seeds _
  case failures =>
    have hfilled : CampaignTimelineBucket.failures ∘ filledBucket (timelineGrid dateParse input) (readSamples dateParse input) =
        fun k => ((samplesIn (timelineGrid dateParse input) (readSamples dateParse input) k).map RawSample.failures).sum := by
      funext k
      exact filledBucket_failures ..
    rw [buildCampaignTimeline_buckets, List.map_map, hfilled]
    exact sum_samplesIn sound RawSample.failures _

end Accounts

section Distinct

theorem mem_addSignatures {seen signatures : List JsString} {a : JsString} :
    a ∈ addSignatures seen signatures ↔ a ∈ seen ∨ a ∈ signatures ∧ a ≠ [] := by
  induction signatures generalizing seen with
  | nil => simp [addSignatures]
  | cons signature signatures ih =>
    rw [addSignatures, List.foldl_cons, ← addSignatures, ih, List.mem_cons]
    split_ifs with hempty
    · rw [mem_setAdd]
      constructor
      · rintro ((h | rfl) | h)
        · exact Or.inl h
        · exact Or.inr ⟨Or.inl rfl, hempty⟩
        · exact Or.inr ⟨Or.inr h.1, h.2⟩
      · rintro (h | ⟨rfl | h, hne⟩)
        · exact Or.inl (Or.inl h)
        · exact Or.inl (Or.inr rfl)
        · exact Or.inr ⟨h, hne⟩
    · rw [not_not] at hempty
      constructor
      · rintro (h | h)
        · exact Or.inl h
        · exact Or.inr ⟨Or.inr h.1, h.2⟩
      · rintro (h | ⟨rfl | h, hne⟩)
        · exact Or.inl h
        · exact absurd hempty hne
        · exact Or.inr ⟨h, hne⟩

theorem addSignatures_nodup {seen : List JsString} (h : seen.Nodup) (signatures : List JsString) :
    (addSignatures seen signatures).Nodup := by
  induction signatures generalizing seen with
  | nil => exact h
  | cons signature signatures ih =>
    rw [addSignatures, List.foldl_cons, ← addSignatures]
    apply ih
    split_ifs
    · exact setAdd_nodup h signature
    · exact h

theorem mem_uniqueSignatures {signatures : Option (List JsString)} {a : JsString} :
    a ∈ uniqueSignatures signatures ↔ a ∈ signatures.getD [] ∧ a ≠ [] := by
  cases signatures with
  | none => exact iff_of_false List.not_mem_nil fun h => List.not_mem_nil h.1
  | some signatures => rw [uniqueSignatures, mem_sortByKey, mem_addSignatures, or_iff_right List.not_mem_nil,
      Option.getD_some]

def seenSignatures (samples : List RawSample) (failures : List CampaignTimelineFailure) : List JsString :=
  samples.foldl (fun seen sample => addSignatures seen sample.signatures)
    (failures.foldl (fun seen failure => setAdd seen failure.signature) [])

theorem mem_seenSignatures {samples : List RawSample} {failures : List CampaignTimelineFailure} {a : JsString} :
    a ∈ seenSignatures samples failures ↔
      (∃ failure ∈ failures, failure.signature = a) ∨ ∃ sample ∈ samples, a ∈ sample.signatures ∧ a ≠ [] := by
  have hfailures (seen : List JsString) : a ∈ failures.foldl (fun seen failure => setAdd seen failure.signature) seen ↔
      a ∈ seen ∨ ∃ failure ∈ failures, failure.signature = a := by
    induction failures generalizing seen with
    | nil => simp
    | cons failure failures ih =>
      rw [List.foldl_cons, ih, mem_setAdd, List.exists_mem_cons_iff, or_assoc, @eq_comm _ a]
  have hsamples (seen : List JsString) :
      a ∈ samples.foldl (fun seen sample => addSignatures seen sample.signatures) seen ↔
        a ∈ seen ∨ ∃ sample ∈ samples, a ∈ sample.signatures ∧ a ≠ [] := by
    induction samples generalizing seen with
    | nil => simp
    | cons sample samples ih => rw [List.foldl_cons, ih, mem_addSignatures, List.exists_mem_cons_iff, or_assoc]
  rw [seenSignatures, hsamples, hfailures, or_iff_right List.not_mem_nil]

theorem seenSignatures_nodup (samples : List RawSample) (failures : List CampaignTimelineFailure) :
    (seenSignatures samples failures).Nodup := by
  have hfailures : (failures.foldl (fun seen failure => setAdd seen failure.signature) []).Nodup := by
    apply List.foldlRecOn failures
    · exact List.nodup_nil
    · exact fun seen hseen failure _ => setAdd_nodup hseen failure.signature
  apply List.foldlRecOn samples
  · exact hfailures
  · exact fun seen hseen sample _ => addSignatures_nodup hseen sample.signatures

theorem countDistinctSignatures_eq_iff {samples kept : List RawSample} {failures : List CampaignTimelineFailure}
    (h : kept ⊆ samples) :
    countDistinctSignatures kept failures = countDistinctSignatures samples failures ↔
      ∀ sample ∈ samples, ∀ a ∈ sample.signatures, a ≠ [] →
        (∃ failure ∈ failures, failure.signature = a) ∨ ∃ other ∈ kept, a ∈ other.signatures := by
  have hcount (l : List RawSample) : countDistinctSignatures l failures = (seenSignatures l failures).length := rfl
  have hsubset : seenSignatures kept failures ⊆ seenSignatures samples failures := by
    intro a ha
    rw [mem_seenSignatures] at ha ⊢
    apply ha.imp_right
    rintro ⟨sample, hsample, hmem⟩
    exact ⟨sample, h hsample, hmem⟩
  have hsubperm := List.subperm_of_subset (seenSignatures_nodup kept failures) hsubset
  rw [hcount, hcount]
  constructor
  · intro hlength sample hsample a ha hne
    have hperm := hsubperm.perm_of_length_le hlength.ge
    have hmem : a ∈ seenSignatures kept failures :=
      hperm.mem_iff.mpr (mem_seenSignatures.mpr (Or.inr ⟨sample, hsample, ha, hne⟩))
    apply (mem_seenSignatures.mp hmem).imp_right
    rintro ⟨other, hother, hsignature, -⟩
    exact ⟨other, hother, hsignature⟩
  · intro hstays
    apply le_antisymm hsubperm.length_le
    apply (List.subperm_of_subset (seenSignatures_nodup samples failures) ?_).length_le
    intro a ha
    rw [mem_seenSignatures] at ha ⊢
    obtain hfailure | ⟨sample, hsample, hmem, hne⟩ := ha
    · exact Or.inl hfailure
    · apply (hstays sample hsample a hmem hne).imp_right
      rintro ⟨other, hother, hsignature⟩
      exact ⟨other, hother, hsignature, hne⟩

end Distinct

section Range

variable (dateParse : JsString → Option ℤ) (input : BuildCampaignTimelineInput)

def closing (start stop : ℤ) : ℤ := if stop ≤ start then start + 1 else stop

def within (start stop at_ : ℤ) : Bool := start ≤ at_ ∧ at_ ≤ stop

def dropOutside : BuildCampaignTimelineInput :=
  { input with
    samples := samplesAt dateParse input
      (within (buildCampaignTimeline dateParse input).start (buildCampaignTimeline dateParse input).stop) }

/-- The accounts are right, and under an explicit range the summary does not depend on samples outside. -/
def Conserves : Prop :=
  Accounts dateParse input (buildCampaignTimeline dateParse input) ∧
    ((parseTime dateParse input.rangeStart).isSome → (parseTime dateParse input.rangeEnd).isSome →
      (buildCampaignTimeline dateParse (dropOutside dateParse input)).summary =
        (buildCampaignTimeline dateParse input).summary)

/-- Under an explicit range, what is found outside is found inside too, by a sample or by a failure. -/
def FoundInside : Prop :=
  ∀ start stop, parseTime dateParse input.rangeStart = some start → parseTime dateParse input.rangeEnd = some stop →
    ∀ sample ∈ input.samples, ∀ at_, parseTime dateParse (some sample.at_) = some at_ →
      within start (closing start stop) at_ = false → ∀ signature ∈ sample.signatures.getD [], signature ≠ [] →
        (∃ failure ∈ input.failures.getD [], (parseTime dateParse (some failure.at_)).any
            (within start (closing start stop)) = true ∧ failure.signature = signature) ∨
          ∃ other ∈ input.samples, (parseTime dateParse (some other.at_)).any
            (within start (closing start stop)) = true ∧ signature ∈ other.signatures.getD []

variable {dateParse input}

theorem within_eq_true {start stop at_ : ℤ} : within start stop at_ = true ↔ start ≤ at_ ∧ at_ ≤ stop := by
  rw [within, decide_eq_true_iff]

theorem bucketIndex_ne_none {grid : Grid} {at_ : ℤ} :
    grid.bucketIndex at_ ≠ none ↔ within grid.start grid.stop at_ = true := by
  rw [ne_eq, Grid.bucketIndex_eq_none_iff, not_not, within_eq_true]

theorem total_readSamples (grid : Grid) {count : RawSample → ℤ} {count' : CampaignTimelineSample → ℤ}
    (h : ∀ sample raw, rawSample dateParse sample = some raw → count raw = nonNegative (count' sample)) :
    total grid count (readSamples dateParse input) = countAt dateParse input (within grid.start grid.stop) count' := by
  have hfilter : ((readSamples dateParse input).filter fun raw => grid.bucketIndex raw.at_ ≠ none) =
      (readSamples dateParse input).filter fun raw => within grid.start grid.stop raw.at_ := by
    apply List.filter_congr
    intro raw _
    rw [Bool.eq_iff_iff, decide_eq_true_iff, bucketIndex_ne_none]
  rw [total_eq, hfilter]
  exact (readSamples_perm _ h).sum_eq

theorem mem_readSamples {raw : RawSample} :
    raw ∈ readSamples dateParse input ↔ ∃ sample ∈ input.samples, rawSample dateParse sample = some raw := by
  rw [readSamples, mem_sortByKey, List.mem_filterMap]

theorem mem_inRange_failures {grid : Grid} {failure : CampaignTimelineFailure} :
    failure ∈ inRange grid (failureEntries dateParse input) ↔ failure ∈ input.failures.getD [] ∧
      (parseTime dateParse (some failure.at_)).any (within grid.start grid.stop) = true := by
  simp only [inRange, List.mem_map, mem_sortByKey, List.mem_filter, failureEntries, timed, List.mem_filterMap,
    decide_eq_true_iff, bucketIndex_ne_none, Option.map_eq_some_iff, Option.any_eq_true]
  constructor
  · rintro ⟨_, ⟨⟨other, hmem, at_, hread, rfl⟩, hwithin⟩, rfl⟩
    exact ⟨hmem, at_, hread, hwithin⟩
  · rintro ⟨hmem, at_, hread, hwithin⟩
    exact ⟨(failure, at_), ⟨⟨failure, hmem, at_, hread, rfl⟩, hwithin⟩, rfl⟩

theorem samplesAt_dropOutside : samplesAt dateParse (dropOutside dateParse input)
    (within (timelineGrid dateParse input).start (timelineGrid dateParse input).stop) =
      samplesAt dateParse input (within (timelineGrid dateParse input).start (timelineGrid dateParse input).stop) := by
  rw [samplesAt, dropOutside, samplesAt, List.filter_filter]
  apply List.filter_congr
  intro sample _
  exact Bool.and_self _

theorem timelineGrid_explicit {start stop : ℤ} (hstart : parseTime dateParse input.rangeStart = some start)
    (hstop : parseTime dateParse input.rangeEnd = some stop) :
    timelineGrid dateParse input = Grid.ofRange start stop (clampBucketCount input.buckets) := by
  simp only [timelineGrid, hstart, hstop, Option.getD_some]

theorem summary_eq_iff {start stop : ℤ} (hstart : parseTime dateParse input.rangeStart = some start)
    (hstop : parseTime dateParse input.rangeEnd = some stop) :
    (buildCampaignTimeline dateParse (dropOutside dateParse input)).summary =
        (buildCampaignTimeline dateParse input).summary ↔
      countDistinctSignatures (readSamples dateParse (dropOutside dateParse input))
          (inRange (timelineGrid dateParse input) (failureEntries dateParse input)) =
        countDistinctSignatures (readSamples dateParse input)
          (inRange (timelineGrid dateParse input) (failureEntries dateParse input)) := by
  have hgrid : timelineGrid dateParse (dropOutside dateParse input) = timelineGrid dateParse input := by
    rw [timelineGrid_explicit hstart hstop]
    exact @timelineGrid_explicit _ (dropOutside dateParse input) _ _ hstart hstop
  have htotal {count : RawSample → ℤ} {count' : CampaignTimelineSample → ℤ}
      (h : ∀ sample raw, rawSample dateParse sample = some raw → count raw = nonNegative (count' sample)) :
      total (timelineGrid dateParse input) count (readSamples dateParse (dropOutside dateParse input)) =
        total (timelineGrid dateParse input) count (readSamples dateParse input) := by
    rw [total_readSamples _ h, total_readSamples _ h, countAt, samplesAt_dropOutside, countAt]
  have hseeds := htotal fun sample raw h => (rawSample_eq h).2.1
  have hfailures := htotal fun sample raw h => (rawSample_eq h).2.2.1
  have hentries : failureEntries dateParse (dropOutside dateParse input) = failureEntries dateParse input := rfl
  simp only [buildCampaignTimeline, hgrid, hseeds, hfailures, hentries, CampaignTimelineSummary.mk.injEq, true_and]

theorem timeline_conserves_iff (dateParse : JsString → Option ℤ) (input : BuildCampaignTimelineInput) :
    Conserves dateParse input ↔ FoundInside dateParse input := by
  rw [Conserves, and_iff_right buildCampaignTimeline_accounts, FoundInside]
  cases hstart : parseTime dateParse input.rangeStart with
  | none => exact iff_of_true nofun nofun
  | some start =>
    cases hstop : parseTime dateParse input.rangeEnd with
    | none => exact iff_of_true nofun nofun
    | some stop =>
      have hgrid := timelineGrid_explicit hstart hstop
      have hends : (timelineGrid dateParse input).start = start ∧
          (timelineGrid dateParse input).stop = closing start stop := by
        rw [hgrid]
        exact ⟨rfl, rfl⟩
      have hkept : readSamples dateParse (dropOutside dateParse input) ⊆ readSamples dateParse input := by
        intro raw hraw
        obtain ⟨sample, hsample, hread⟩ := mem_readSamples.mp hraw
        exact mem_readSamples.mpr ⟨sample, (List.mem_filter.mp hsample).1, hread⟩
      simp only [Option.isSome_some, forall_const, Option.some_inj]
      rw [summary_eq_iff hstart hstop, countDistinctSignatures_eq_iff hkept]
      simp only [mem_inRange_failures, hends]
      constructor
      · rintro hfound _ _ rfl rfl sample hsample at_ hread - signature hsignature hne
        obtain ⟨raw, hraw, -⟩ : ∃ raw, rawSample dateParse sample = some raw ∧ raw.at_ = at_ := by
          rw [rawSample, hread]
          exact ⟨_, rfl, rfl⟩
        have hmem : signature ∈ raw.signatures := by
          rw [(rawSample_eq hraw).2.2.2, mem_uniqueSignatures]
          exact ⟨hsignature, hne⟩
        obtain ⟨failure, ⟨hfailure, hinside⟩, heq⟩ | ⟨other, hother, hshared⟩ :=
          hfound raw (mem_readSamples.mpr ⟨sample, hsample, hraw⟩) signature hmem hne
        · exact Or.inl ⟨failure, hfailure, hinside, heq⟩
        · obtain ⟨source, hsource, hread⟩ := mem_readSamples.mp hother
          obtain ⟨hsource, hinside⟩ := List.mem_filter.mp hsource
          rw [(rawSample_eq hread).2.2.2, mem_uniqueSignatures] at hshared
          refine Or.inr ⟨source, hsource, ?_, hshared.1⟩
          rw [← hends.2, ← hends.1]
          exact hinside
      · intro hfound raw hraw signature hsignature hne
        obtain ⟨sample, hsample, hread⟩ := mem_readSamples.mp hraw
        obtain ⟨htime, -, -, hsignatures⟩ := rawSample_eq hread
        rw [hsignatures, mem_uniqueSignatures] at hsignature
        have hinside {other : CampaignTimelineSample} (hother : other ∈ input.samples)
            (hwithin : (parseTime dateParse (some other.at_)).any (within start (closing start stop)) = true)
            (hshared : signature ∈ other.signatures.getD []) :
            ∃ kept ∈ readSamples dateParse (dropOutside dateParse input), signature ∈ kept.signatures := by
          obtain ⟨at_, hat, hwithin'⟩ := (Option.any_eq_true _ _).mp hwithin
          obtain ⟨kept, hkept⟩ : ∃ kept, rawSample dateParse other = some kept := by
            rw [rawSample, hat]
            exact ⟨_, rfl⟩
          refine ⟨kept, mem_readSamples.mpr ⟨other, List.mem_filter.mpr ⟨hother, ?_⟩, hkept⟩, ?_⟩
          · rw [← hends.2, ← hends.1] at hwithin
            exact hwithin
          · rw [(rawSample_eq hkept).2.2.2, mem_uniqueSignatures]
            exact ⟨hshared, hne⟩
        cases hwithin : within start (closing start stop) raw.at_ with
        | true => exact Or.inr (hinside hsample (by rw [htime]; exact hwithin) hsignature.1)
        | false =>
          obtain ⟨failure, hfailure, hfinside, heq⟩ | ⟨other, hother, hoinside, hshared⟩ :=
            hfound start stop rfl rfl sample hsample raw.at_ htime hwithin signature hsignature.1 hne
          · exact Or.inl ⟨failure, ⟨hfailure, hfinside⟩, heq⟩
          · exact Or.inr (hinside hother hoinside hshared)

section Sample

def sampleTimes : List (JsString × ℤ) :=
  [(ofString "2026-01-05T00:00:00.000Z", 1767571200000), (ofString "2026-01-05T01:00:00.000Z", 1767574800000),
    (ofString "2026-01-06T00:00:00.000Z", 1767657600000)]

def sampleParse (text : JsString) : Option ℤ := (sampleTimes.find? fun time => time.1 = text).map Prod.snd

def sampleInput : BuildCampaignTimelineInput :=
  { campaignId := ofString "campaign-1"
    samples := [⟨ofString "2026-01-06T00:00:00.000Z", 10, 1, some [ofString "SIG-1"]⟩]
    markers := none
    failures := none
    rangeStart := some (ofString "2026-01-05T00:00:00.000Z")
    rangeEnd := some (ofString "2026-01-05T01:00:00.000Z")
    buckets := .undefined
    now := 1767571200000 }

theorem sampleInput_not_conserves : ¬Conserves sampleParse sampleInput := by
  -- the signature of a sample of the next day is counted
  rintro ⟨-, hsummary⟩
  have hequal := congrArg CampaignTimelineSummary.distinctSignatures (hsummary (by decide +kernel) (by decide +kernel))
  revert hequal
  decide +kernel

end Sample

end Range

end CrashLab.CampaignTimeline
