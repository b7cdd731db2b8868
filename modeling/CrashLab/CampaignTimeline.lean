import CrashLab.JsStrings
import CrashLab.Sorting
import Mathlib.Algebra.Order.Floor.Div
import Mathlib.Algebra.Order.Floor.Semiring

namespace CrashLab.CampaignTimeline

open JsStrings Sorting

def defaultTimelineBuckets : ℕ := 240

def maxTimelineBuckets : ℕ := 500

def minTimelineBucketMs : ℕ := 1000

def maxBucketSignatures : ℕ := 20

inductive CampaignTimelineMarkerKind where
  | campaignStart
  | campaignPause
  | campaignResume
  | campaignCancel
  | checkpoint
  | workerJoin
  | workerLeave
  | dictionaryChange
deriving DecidableEq, Repr

structure CampaignTimelineSample where
  at_ : JsString
  seeds : ℤ
  failures : ℤ
  signatures : Option (List JsString)
deriving DecidableEq, Repr

structure CampaignTimelineMarker where
  id : JsString
  kind : CampaignTimelineMarkerKind
  at_ : JsString
  label : JsString
  detail : Option JsString
  runId : Option JsString
deriving DecidableEq, Repr

structure CampaignTimelineFailure where
  id : JsString
  at_ : JsString
  signature : JsString
  runId : Option JsString
  severity : Option JsString
deriving DecidableEq, Repr

/-- The instants are milliseconds, which the source writes as ISO texts. -/
structure CampaignTimelineBucket where
  start : ℤ
  stop : ℤ
  seeds : ℤ := 0
  failures : ℤ := 0
  failureRate : ℚ := 0
  signatureCount : ℕ := 0
  signatures : List JsString := []
deriving DecidableEq, Repr

structure CampaignTimelineSummary where
  seeds : ℤ
  failures : ℤ
  failureRate : ℚ
  distinctSignatures : ℕ
deriving DecidableEq, Repr

structure CampaignTimelineSeries where
  campaignId : JsString
  start : ℤ
  stop : ℤ
  bucketCount : ℕ
  bucketWidthMs : ℕ
  sampledPoints : ℕ
  downsampled : Bool
  requestedBuckets : ℕ
  buckets : List CampaignTimelineBucket
  markers : List CampaignTimelineMarker
  failures : List CampaignTimelineFailure
  summary : CampaignTimelineSummary

inductive RequestedBuckets where
  | undefined
  | notFinite
  | finite (requested : ℚ)
deriving DecidableEq, Repr

structure BuildCampaignTimelineInput where
  campaignId : JsString
  samples : List CampaignTimelineSample
  markers : Option (List CampaignTimelineMarker)
  failures : Option (List CampaignTimelineFailure)
  rangeStart : Option JsString
  rangeEnd : Option JsString
  buckets : RequestedBuckets
  now : ℤ

section Sets

variable {α : Type*} [DecidableEq α]

/-- `Set.prototype.add`. -/
def setAdd (seen : List α) (a : α) : List α := if a ∈ seen then seen else seen ++ [a]

theorem setAdd_nodup {seen : List α} (h : seen.Nodup) (a : α) : (setAdd seen a).Nodup := by
  rw [setAdd]
  split_ifs with hmem
  · exact h
  · rw [List.nodup_append_comm]
    exact List.nodup_cons.mpr ⟨hmem, h⟩

theorem mem_setAdd {seen : List α} {a b : α} : b ∈ setAdd seen a ↔ b ∈ seen ∨ b = a := by
  rw [setAdd]
  split_ifs with hmem
  · constructor
    · exact Or.inl
    · rintro (h | rfl)
      · exact h
      · exact hmem
  · rw [List.mem_append, List.mem_singleton]

end Sets

/-- `dateParse` is the date parser of the platform, which gives no number for what it cannot read. -/
def parseTime (dateParse : JsString → Option ℤ) : Option JsString → Option ℤ
  | none => none
  | some value => if value = [] then none else dateParse value

def nonNegative (value : ℤ) : ℤ := if 0 < value then value else 0

def addSignatures (seen signatures : List JsString) : List JsString :=
  signatures.foldl (fun seen signature => if signature ≠ [] then setAdd seen signature else seen) seen

def uniqueSignatures (signatures : Option (List JsString)) : List JsString :=
  match signatures with
  | none => []
  | some signatures => sortByKey sortKey (addSignatures [] signatures)

structure RawSample where
  at_ : ℤ
  seeds : ℤ
  failures : ℤ
  signatures : List JsString
deriving DecidableEq, Repr

def countDistinctSignatures (samples : List RawSample) (failures : List CampaignTimelineFailure) : ℕ :=
  let seen := failures.foldl (fun seen failure => setAdd seen failure.signature) []
  (samples.foldl (fun seen sample => addSignatures seen sample.signatures) seen).length

def clampBucketCount : RequestedBuckets → ℕ
  | .undefined => defaultTimelineBuckets
  | .notFinite => defaultTimelineBuckets
  | .finite requested => min maxTimelineBuckets (max 1 ⌊requested⌋).toNat

structure Grid where
  start : ℤ
  stop : ℤ
  bucketWidthMs : ℕ
  bucketCount : ℕ

namespace Grid

def bucketStart (grid : Grid) (index : ℕ) : ℤ := grid.start + index * grid.bucketWidthMs

def bucketEnd (grid : Grid) (index : ℕ) : ℤ := min grid.stop (grid.bucketStart index + grid.bucketWidthMs)

def bucketIndex (grid : Grid) (at_ : ℤ) : Option ℕ :=
  if at_ < grid.start ∨ grid.stop < at_ then none
  else some (min (grid.bucketCount - 1) ((at_ - grid.start) / grid.bucketWidthMs).toNat)

def ofRange (start stop : ℤ) (requestedBuckets : ℕ) : Grid :=
  let stop := if stop ≤ start then start + 1 else stop
  let rangeMs := (stop - start).toNat
  let bucketWidthMs := max minTimelineBucketMs (rangeMs ⌈/⌉ requestedBuckets)
  { start, stop, bucketWidthMs, bucketCount := max 1 (rangeMs ⌈/⌉ bucketWidthMs) }

end Grid

structure Filling where
  sampledPoints : ℕ
  buckets : List CampaignTimelineBucket
  signatureSets : List (List JsString)

def addSample (grid : Grid) (filling : Filling) (sample : RawSample) : Filling :=
  match grid.bucketIndex sample.at_ with
  | none => filling
  | some index =>
    { sampledPoints := filling.sampledPoints + 1
      buckets := filling.buckets.modify index fun bucket =>
        { bucket with seeds := bucket.seeds + sample.seeds, failures := bucket.failures + sample.failures }
      signatureSets := filling.signatureSets.modify index fun seen => sample.signatures.foldl setAdd seen }

def closeBucket (bucket : CampaignTimelineBucket) (seen : List JsString) : CampaignTimelineBucket :=
  let signatures := sortByKey sortKey seen
  { bucket with
    failureRate := if 0 < bucket.seeds then bucket.failures / bucket.seeds else 0
    signatureCount := signatures.length
    signatures := signatures.take maxBucketSignatures }

section Build

variable (dateParse : JsString → Option ℤ)

def rawSample (sample : CampaignTimelineSample) : Option RawSample :=
  (parseTime dateParse (some sample.at_)).map fun at_ =>
    { at_, seeds := nonNegative sample.seeds, failures := nonNegative sample.failures,
      signatures := uniqueSignatures sample.signatures }

def timed {α : Type} (time : α → JsString) (entries : List α) : List (α × ℤ) :=
  entries.filterMap fun entry => (parseTime dateParse (some (time entry))).map fun at_ => (entry, at_)

def readSamples (input : BuildCampaignTimelineInput) : List RawSample :=
  sortByKey RawSample.at_ (input.samples.filterMap (rawSample dateParse))

def markerEntries (input : BuildCampaignTimelineInput) : List (CampaignTimelineMarker × ℤ) :=
  timed dateParse CampaignTimelineMarker.at_ (input.markers.getD [])

def failureEntries (input : BuildCampaignTimelineInput) : List (CampaignTimelineFailure × ℤ) :=
  timed dateParse CampaignTimelineFailure.at_ (input.failures.getD [])

def timelineGrid (input : BuildCampaignTimelineInput) : Grid :=
  let dataTimes := (readSamples dateParse input).map RawSample.at_ ++ (markerEntries dateParse input).map Prod.snd ++
    (failureEntries dateParse input).map Prod.snd
  let dataMin := dataTimes.min?.getD input.now
  let dataMax := dataTimes.max?.getD input.now
  Grid.ofRange ((parseTime dateParse input.rangeStart).getD dataMin) ((parseTime dateParse input.rangeEnd).getD dataMax)
    (clampBucketCount input.buckets)

def emptyFilling (grid : Grid) : Filling :=
  { sampledPoints := 0
    buckets := (List.range grid.bucketCount).map fun index =>
      { start := grid.bucketStart index, stop := grid.bucketEnd index }
    signatureSets := List.replicate grid.bucketCount [] }

def fillBuckets (grid : Grid) (samples : List RawSample) : Filling := samples.foldl (addSample grid) (emptyFilling grid)

def total (grid : Grid) (count : RawSample → ℤ) (samples : List RawSample) : ℤ :=
  samples.foldl (fun sum sample => sum + if grid.bucketIndex sample.at_ = none then 0 else count sample) 0

def inRange {α : Type} (grid : Grid) (entries : List (α × ℤ)) : List α :=
  (sortByKey Prod.snd (entries.filter fun entry => grid.bucketIndex entry.2 ≠ none)).map Prod.fst

def buildCampaignTimeline (input : BuildCampaignTimelineInput) : CampaignTimelineSeries :=
  let samples := readSamples dateParse input
  let grid := timelineGrid dateParse input
  let filling := fillBuckets grid samples
  let failures := inRange grid (failureEntries dateParse input)
  let totalSeeds := total grid RawSample.seeds samples
  let totalFailures := total grid RawSample.failures samples
  { campaignId := input.campaignId
    start := grid.start
    stop := grid.stop
    bucketCount := grid.bucketCount
    bucketWidthMs := grid.bucketWidthMs
    sampledPoints := filling.sampledPoints
    downsampled :=
      (match input.buckets with
        | .finite requested => decide ((maxTimelineBuckets : ℚ) < requested)
        | _ => false) || decide (grid.bucketCount < filling.sampledPoints)
    requestedBuckets := clampBucketCount input.buckets
    buckets := List.zipWith closeBucket filling.buckets filling.signatureSets
    markers := inRange grid (markerEntries dateParse input)
    failures
    summary :=
      { seeds := totalSeeds
        failures := totalFailures
        failureRate := if 0 < totalSeeds then totalFailures / totalSeeds else 0
        -- all samples, those outside the range too
        distinctSignatures := countDistinctSignatures samples failures } }

end Build

section Cut

namespace Grid

structure Sound (grid : Grid) : Prop where
  ordered : grid.start < grid.stop
  wide : 0 < grid.bucketWidthMs
  some_bucket : 0 < grid.bucketCount
  covered : grid.stop - grid.start ≤ grid.bucketCount * grid.bucketWidthMs
  needed : (grid.bucketCount - 1) * grid.bucketWidthMs < grid.stop - grid.start

theorem ceilDiv_bounds {range width : ℕ} (hrange : 0 < range) (hwidth : 0 < width) :
    0 < range ⌈/⌉ width ∧ range ≤ range ⌈/⌉ width * width ∧ (range ⌈/⌉ width - 1) * width < range := by
  have hcover : range ≤ range ⌈/⌉ width * width := by
    rw [Nat.mul_comm, ← ceilDiv_le_iff_le_mul hwidth]
  have hpos : 0 < range ⌈/⌉ width := by
    apply Nat.pos_of_ne_zero
    intro hzero
    rw [hzero, Nat.zero_mul] at hcover
    omega
  refine ⟨hpos, hcover, ?_⟩
  apply Nat.lt_of_not_le
  rw [Nat.mul_comm, ← ceilDiv_le_iff_le_mul hwidth]
  omega

theorem ofRange_sound (start stop : ℤ) (requested : ℕ) : (ofRange start stop requested).Sound := by
  unfold ofRange
  generalize hclosing : (if stop ≤ start then start + 1 else stop) = closing
  have hordered : start < closing := by
    rw [← hclosing]
    split_ifs <;> omega
  have hrange : ((closing - start).toNat : ℤ) = closing - start := Int.toNat_of_nonneg (by omega)
  have hpos : 0 < (closing - start).toNat := by omega
  dsimp only
  generalize (closing - start).toNat = rangeMs at hrange hpos
  have hwide : 0 < max minTimelineBucketMs (rangeMs ⌈/⌉ requested) := lt_max_of_lt_left (by decide)
  generalize max minTimelineBucketMs (rangeMs ⌈/⌉ requested) = width at hwide
  obtain ⟨hcount, hcover, hneeded⟩ := ceilDiv_bounds hpos hwide
  rw [max_eq_right hcount]
  constructor
  · exact hordered
  · exact hwide
  · exact hcount
  · rw [← hrange]
    exact_mod_cast hcover
  · rw [← hrange]
    zify [hcount] at hneeded
    exact hneeded

theorem ofRange_bucketCount_le (start stop : ℤ) {requested : ℕ} (h : 0 < requested) :
    (ofRange start stop requested).bucketCount ≤ requested := by
  unfold ofRange
  dsimp only
  generalize ((if stop ≤ start then start + 1 else stop) - start).toNat = rangeMs
  have hwide : 0 < max minTimelineBucketMs (rangeMs ⌈/⌉ requested) := lt_max_of_lt_left (by decide)
  apply max_le h
  rw [ceilDiv_le_iff_le_mul hwide]
  calc rangeMs
    _ ≤ requested * (rangeMs ⌈/⌉ requested) := (ceilDiv_le_iff_le_mul h).mp le_rfl
    _ = rangeMs ⌈/⌉ requested * requested := Nat.mul_comm ..
    _ ≤ max minTimelineBucketMs (rangeMs ⌈/⌉ requested) * requested := Nat.mul_le_mul_right _ (le_max_right ..)

theorem bucketStart_nonneg (grid : Grid) (k : ℕ) : grid.start ≤ grid.bucketStart k := by
  have hsteps : (0 : ℤ) ≤ k * grid.bucketWidthMs := by positivity
  rw [bucketStart]
  omega

theorem bucketIndex_eq_none_iff {grid : Grid} {at_ : ℤ} :
    grid.bucketIndex at_ = none ↔ ¬(grid.start ≤ at_ ∧ at_ ≤ grid.stop) := by
  rw [bucketIndex]
  split_ifs with hout
  · exact iff_of_true rfl (by omega)
  · exact iff_of_false nofun (by omega)

variable {grid : Grid} (sound : grid.Sound)
include sound

theorem bucketEnd_of_lt {k : ℕ} (h : k + 1 < grid.bucketCount) : grid.bucketEnd k = grid.bucketStart (k + 1) := by
  have hsteps : ((k + 1 : ℕ) : ℤ) * grid.bucketWidthMs ≤ (grid.bucketCount - 1) * grid.bucketWidthMs := by
    apply Int.mul_le_mul_of_nonneg_right
    · omega
    · exact Int.natCast_nonneg _
  have hneeded := sound.needed
  have hnext : grid.bucketStart k + grid.bucketWidthMs = grid.bucketStart (k + 1) := by
    unfold bucketStart
    push_cast
    ring
  rw [bucketEnd, hnext, min_eq_right]
  rw [bucketStart]
  omega

theorem bucketEnd_last {k : ℕ} (h : k + 1 = grid.bucketCount) : grid.bucketEnd k = grid.stop := by
  have hcovered := sound.covered
  have hnext : grid.bucketStart k + grid.bucketWidthMs = grid.start + grid.bucketCount * grid.bucketWidthMs := by
    rw [bucketStart, ← h]
    push_cast
    ring
  rw [bucketEnd, hnext, min_eq_left]
  omega

theorem bucketStart_lt {k : ℕ} (h : k < grid.bucketCount) : grid.bucketStart k < grid.bucketEnd k := by
  have hsteps : (k : ℤ) * grid.bucketWidthMs ≤ (grid.bucketCount - 1) * grid.bucketWidthMs := by
    apply Int.mul_le_mul_of_nonneg_right
    · omega
    · exact Int.natCast_nonneg _
  have hneeded := sound.needed
  have hwide := sound.wide
  rw [bucketEnd, lt_min_iff, bucketStart]
  omega

theorem quotient_eq_iff {at_ : ℤ} (h : grid.start ≤ at_) {k : ℕ} (hk : k < grid.bucketCount) :
    min (grid.bucketCount - 1) ((at_ - grid.start) / grid.bucketWidthMs).toNat = k ↔
      grid.bucketStart k ≤ at_ ∧ (k + 1 < grid.bucketCount → at_ < grid.bucketStart (k + 1)) := by
  have hwide : (0 : ℤ) < grid.bucketWidthMs := by exact_mod_cast sound.wide
  have hquotient : 0 ≤ (at_ - grid.start) / grid.bucketWidthMs := Int.ediv_nonneg (by omega) hwide.le
  have hlow (j : ℕ) : (j : ℤ) ≤ (at_ - grid.start) / grid.bucketWidthMs ↔ grid.bucketStart j ≤ at_ := by
    rw [Int.le_ediv_iff_mul_le hwide, bucketStart]
    omega
  have hnext : at_ < grid.bucketStart (k + 1) ↔ (at_ - grid.start) / grid.bucketWidthMs < k + 1 := by
    rw [← not_le, ← hlow, not_le]
    push_cast
    rfl
  rw [← hlow, hnext]
  omega

theorem bucketIndex_eq_some_iff {at_ : ℤ} {k : ℕ} : grid.bucketIndex at_ = some k ↔
    k < grid.bucketCount ∧ grid.bucketStart k ≤ at_ ∧
      (at_ < grid.bucketEnd k ∨ k + 1 = grid.bucketCount ∧ at_ = grid.bucketEnd k) := by
  have hstop (hk : k < grid.bucketCount) : grid.bucketEnd k ≤ grid.stop := min_le_left ..
  have hstart := grid.bucketStart_nonneg k
  unfold bucketIndex
  by_cases hk : k < grid.bucketCount
  · rw [and_iff_right hk]
    split_ifs with hout
    · apply iff_of_false nofun
      rintro ⟨hlow, hhigh⟩
      have hend := hstop hk
      omega
    · rw [not_or, not_lt, not_lt] at hout
      rw [Option.some_inj, quotient_eq_iff sound hout.1 hk]
      by_cases hlast : k + 1 < grid.bucketCount
      · have hend := bucketEnd_of_lt sound hlast
        rw [hend]
        omega
      · have hcount : k + 1 = grid.bucketCount := by omega
        rw [bucketEnd_last sound hcount]
        omega
  · apply iff_of_false
    · split_ifs
      · exact nofun
      · rw [Option.some_inj]
        have hcount := sound.some_bucket
        omega
    · exact fun h => hk h.1

end Grid

end Cut

section Filling

variable (grid : Grid)

def samplesIn (samples : List RawSample) (k : ℕ) : List RawSample :=
  samples.filter fun sample => grid.bucketIndex sample.at_ = some k

def gather (samples : List RawSample) (k : ℕ) (bucket : CampaignTimelineBucket) : CampaignTimelineBucket :=
  { bucket with
    seeds := bucket.seeds + ((samplesIn grid samples k).map RawSample.seeds).sum
    failures := bucket.failures + ((samplesIn grid samples k).map RawSample.failures).sum }

def gatherSignatures (samples : List RawSample) (k : ℕ) (seen : List JsString) : List JsString :=
  (samplesIn grid samples k).foldl (fun seen sample => sample.signatures.foldl setAdd seen) seen

variable {grid} {samples : List RawSample} {sample : RawSample} {k : ℕ}

theorem samplesIn_take (h : grid.bucketIndex sample.at_ = some k) :
    samplesIn grid (sample :: samples) k = sample :: samplesIn grid samples k := by
  simp [samplesIn, h]

theorem samplesIn_skip (h : grid.bucketIndex sample.at_ ≠ some k) :
    samplesIn grid (sample :: samples) k = samplesIn grid samples k := by
  simp [samplesIn, h]

theorem gather_skip (h : grid.bucketIndex sample.at_ ≠ some k) :
    gather grid (sample :: samples) k = gather grid samples k := by
  funext bucket
  rw [gather, gather, samplesIn_skip h]

theorem gatherSignatures_skip (h : grid.bucketIndex sample.at_ ≠ some k) :
    gatherSignatures grid (sample :: samples) k = gatherSignatures grid samples k := by
  funext seen
  rw [gatherSignatures, gatherSignatures, samplesIn_skip h]

variable (grid)

theorem fold_buckets (samples : List RawSample) (filling : Filling) (k : ℕ) :
    (samples.foldl (addSample grid) filling).buckets[k]? = filling.buckets[k]?.map (gather grid samples k) := by
  induction samples generalizing filling with
  | nil =>
    have hid : gather grid [] k = id := by
      funext bucket
      simp [gather, samplesIn]
    rw [List.foldl_nil, hid, Option.map_id]
    rfl
  | cons sample samples ih =>
    rw [List.foldl_cons, ih, addSample]
    cases hindex : grid.bucketIndex sample.at_ with
    | none => rw [gather_skip (by rw [hindex]; exact nofun)]
    | some index =>
      simp only [List.getElem?_modify]
      by_cases hk : index = k
      · rw [hk] at hindex ⊢
        simp only [↓reduceIte]
        cases filling.buckets[k]? with
        | none => rfl
        | some bucket =>
          simp only [Option.map_eq_map, Option.map_some, gather, samplesIn_take hindex, List.map_cons, List.sum_cons,
            add_assoc]
      · simp only [hk, ↓reduceIte]
        rw [gather_skip (by rwa [hindex, ne_eq, Option.some_inj]), id_map']

theorem fold_signatureSets (samples : List RawSample) (filling : Filling) (k : ℕ) :
    (samples.foldl (addSample grid) filling).signatureSets[k]? =
      filling.signatureSets[k]?.map (gatherSignatures grid samples k) := by
  induction samples generalizing filling with
  | nil =>
    have hid : gatherSignatures grid [] k = id := by
      funext seen
      rfl
    rw [List.foldl_nil, hid, Option.map_id]
    rfl
  | cons sample samples ih =>
    rw [List.foldl_cons, ih, addSample]
    cases hindex : grid.bucketIndex sample.at_ with
    | none => rw [gatherSignatures_skip (by rw [hindex]; exact nofun)]
    | some index =>
      simp only [List.getElem?_modify]
      by_cases hk : index = k
      · rw [hk] at hindex ⊢
        simp only [↓reduceIte]
        cases filling.signatureSets[k]? with
        | none => rfl
        | some seen =>
          simp only [Option.map_eq_map, Option.map_some, gatherSignatures, samplesIn_take hindex, List.foldl_cons]
      · simp only [hk, ↓reduceIte]
        rw [gatherSignatures_skip (by rwa [hindex, ne_eq, Option.some_inj]), id_map']

theorem fold_sampledPoints (samples : List RawSample) (filling : Filling) :
    (samples.foldl (addSample grid) filling).sampledPoints =
      filling.sampledPoints + samples.countP fun sample => grid.bucketIndex sample.at_ ≠ none := by
  induction samples generalizing filling with
  | nil => rfl
  | cons sample samples ih =>
    rw [List.foldl_cons, ih, List.countP_cons, addSample]
    cases grid.bucketIndex sample.at_ with
    | none => simp
    | some index =>
      simp
      omega

def filledBucket (samples : List RawSample) (k : ℕ) : CampaignTimelineBucket :=
  closeBucket (gather grid samples k { start := grid.bucketStart k, stop := grid.bucketEnd k })
    (gatherSignatures grid samples k [])

theorem buckets_eq (samples : List RawSample) :
    List.zipWith closeBucket (fillBuckets grid samples).buckets (fillBuckets grid samples).signatureSets =
      (List.range grid.bucketCount).map (filledBucket grid samples) := by
  apply List.ext_getElem?
  intro k
  rw [List.getElem?_zipWith, fillBuckets, fold_buckets, fold_signatureSets, emptyFilling, List.getElem?_map,
    List.getElem?_map, List.getElem?_replicate]
  by_cases hk : k < grid.bucketCount
  · simp only [List.getElem?_range hk, hk, ↓reduceIte, Option.map_some, filledBucket]
  · rw [List.getElem?_eq_none (by simpa using hk)]
    rfl

theorem total_eq (count : RawSample → ℤ) (samples : List RawSample) : total grid count samples =
    ((samples.filter fun sample => grid.bucketIndex sample.at_ ≠ none).map count).sum := by
  have hfold (sum : ℤ) : samples.foldl
      (fun sum sample => sum + if grid.bucketIndex sample.at_ = none then 0 else count sample) sum =
        sum + ((samples.filter fun sample => grid.bucketIndex sample.at_ ≠ none).map count).sum := by
    induction samples generalizing sum with
    | nil => simp
    | cons sample samples ih =>
      rw [List.foldl_cons, ih]
      by_cases hnone : grid.bucketIndex sample.at_ = none
      · simp [hnone]
      · simp [hnone, add_assoc]
  rw [total, hfold, zero_add]

variable {grid} (sound : grid.Sound)
include sound

theorem sum_samplesIn (count : RawSample → ℤ) (samples : List RawSample) :
    ((List.range grid.bucketCount).map fun k => ((samplesIn grid samples k).map count).sum).sum =
      total grid count samples := by
  rw [total_eq]
  induction samples with
  | nil => simp [samplesIn]
  | cons sample samples ih =>
    cases hindex : grid.bucketIndex sample.at_ with
    | none =>
      have hskip (k : ℕ) : samplesIn grid (sample :: samples) k = samplesIn grid samples k :=
        samplesIn_skip (by rw [hindex]; exact nofun)
      simp only [hskip, ih]
      simp [hindex]
    | some index =>
      have hlt : index < grid.bucketCount := (Grid.bucketIndex_eq_some_iff sound).mp hindex |>.1
      have hsplit (k : ℕ) : ((samplesIn grid (sample :: samples) k).map count).sum =
          (if k = index then count sample else 0) + ((samplesIn grid samples k).map count).sum := by
        by_cases hk : k = index
        · rw [if_pos hk, samplesIn_take (by rw [hindex, hk]), List.map_cons, List.sum_cons]
        · rw [if_neg hk, samplesIn_skip (by rw [hindex, ne_eq, Option.some_inj]; exact Ne.symm hk), zero_add]
      have hone : ((List.range grid.bucketCount).map fun k => if k = index then count sample else 0).sum =
          count sample := by
        rw [List.sum_map_eq_nsmul_single index _ fun k hk _ => if_neg hk, if_pos rfl,
          List.count_eq_one_of_mem List.nodup_range (List.mem_range.mpr hlt), one_smul]
      simp only [hsplit, List.sum_map_add, ih, hone]
      simp [hindex]

end Filling

end CrashLab.CampaignTimeline
