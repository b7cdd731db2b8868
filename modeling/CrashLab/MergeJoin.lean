import CrashLab.CorpusStore
import CrashLab.Histories
import Mathlib.Data.Set.Lattice

namespace CrashLab.Archive

open Digest Histories MachineInts Occurrences OrderedMaps Sorting

theorem toLeBytes_injOn {m n : ℕ} (hm : m < 2 ^ 64) (hn : n < 2 ^ 64) (h : toLeBytes m = toLeBytes n) :
    m = n := by
  have hbyte : ∀ i < 8, m / 256 ^ i % 256 = n / 256 ^ i % 256 := by
    intro i hi
    have hi' : UInt8.ofNat (m / 256 ^ i) = UInt8.ofNat (n / 256 ^ i) :=
      List.map_inj_left.mp h i (List.mem_range.mpr hi)
    have htoNat := congrArg UInt8.toNat hi'
    rwa [UInt8.toNat_ofNat', UInt8.toNat_ofNat'] at htoNat
  have hlow : ∀ i ≤ 8, m % 256 ^ i = n % 256 ^ i := by
    intro i hi
    induction i with
    | zero => simp [Nat.mod_one]
    | succ i ih =>
      have hmod : ∀ k : ℕ, k % 256 ^ (i + 1) = k % 256 ^ i + 256 ^ i * (k / 256 ^ i % 256) := by
        intro k
        rw [pow_succ, Nat.mod_mul]
      rw [hmod, hmod, ih (by omega), hbyte i (by omega)]
  have hall := hlow 8 le_rfl
  rwa [Nat.mod_eq_of_lt (by norm_num; omega), Nat.mod_eq_of_lt (by norm_num; omega)] at hall

theorem seedPreimage_injOn {s t : CaseSeed} (hs : s.id < 2 ^ 64) (ht : t.id < 2 ^ 64)
    (h : seedPreimage s = seedPreimage t) : s = t := by
  have hlen : ∀ n, (toLeBytes n).length = 8 := fun n => by simp [toLeBytes]
  obtain ⟨hhead, hpayload⟩ := List.append_inj h (by simp [hlen])
  obtain ⟨hid, _⟩ := List.append_inj hhead (by simp [hlen])
  cases s
  cases t
  simp only [CaseSeed.mk.injEq]
  exact ⟨toLeBytes_injOn hs ht hid, hpayload⟩

theorem seedContentHash_injOn {sha256 : List UInt8 → List UInt8} (hsha : Function.Injective sha256)
    {s t : CaseSeed} (hs : s.id < 2 ^ 64) (ht : t.id < 2 ^ 64)
    (h : seedContentHash sha256 s = seedContentHash sha256 t) : s = t :=
  seedPreimage_injOn hs ht (sha256Hex_injective hsha h)

theorem seedOrder_injective : Function.Injective seedOrder := by
  rintro ⟨i, p⟩ ⟨j, q⟩ h
  obtain ⟨hid, hpayload⟩ := Prod.mk.inj (toLex_inj.mp h)
  rw [CaseSeed.mk.injEq]
  exact ⟨hid, List.map_injective_iff.mpr (fun _ _ => UInt8.toNat_inj.mp) hpayload⟩

namespace CorpusStore

abbrev Corpus := Set CaseSeed × (String → Set String)

def view (store : CorpusStore) : Corpus := ({s | s ∈ store.seeds}, fun hash => {t | t ∈ store.tagsFor hash})

structure MergeCall where
  archive : CorpusArchive
  policy : EngineVersionPolicy
  currentEngine : String
  dryRun : Bool

variable (sha256 : List UInt8 → List UInt8)

def contents (archive : CorpusArchive) : Corpus :=
  ({s | ∃ p ∈ packedOf archive, p.2 = s},
    fun hash => {t | ∃ p ∈ packedOf archive, seedContentHash sha256 p.2 = hash ∧ t ∈ p.1.tags})

def mergeCall (store : CorpusStore) (call : MergeCall) : CorpusStore :=
  (mergeArchive sha256 store call.archive call.policy call.currentEngine call.dryRun).2

def MergeCall.Merges (call : MergeCall) : Prop :=
  Passes sha256 call.archive call.policy call.currentEngine ∧ call.dryRun = false

structure Canonical (store : CorpusStore) : Prop where
  seeds_nodup : store.seeds.Nodup
  keys : ∀ hash, store.provenance[hash]?.isSome ↔ ∃ seed ∈ store.seeds, seedContentHash sha256 seed = hash
  tags_sorted : ∀ (hash : String) (tags : List String), store.provenance[hash]? = some tags → tags.Pairwise (· < ·)

variable {sha256}

theorem mergeCall_of_merges {store : CorpusStore} {call : MergeCall} (h : call.Merges sha256) :
    mergeCall sha256 store call = absorb sha256 store (packedOf call.archive) := by
  rw [mergeCall, mergeArchive_of_passes h.1, h.2]
  rfl

theorem mergeCall_of_not_merges {store : CorpusStore} {call : MergeCall} (h : ¬call.Merges sha256) :
    mergeCall sha256 store call = store := by
  unfold mergeCall
  by_cases hpasses : Passes sha256 call.archive call.policy call.currentEngine
  · have hdry : call.dryRun = true := Bool.eq_true_of_not_eq_false fun hdry => h ⟨hpasses, hdry⟩
    rw [mergeArchive_of_passes hpasses, hdry]
    rfl
  · exact (mergeArchive_of_not_passes hpasses call.dryRun).1

theorem view_absorb (store : CorpusStore) (archive : CorpusArchive) :
    view (absorb sha256 store (packedOf archive)) = view store ⊔ contents sha256 archive := by
  apply Prod.ext
  · ext s
    simp [view, contents, absorb_seeds]
  · funext hash
    ext t
    simp only [view, contents, mem_absorb_tagsFor]
    rfl

theorem mem_view_run_tags (store : CorpusStore) (calls : List MergeCall) (hash t : String) :
    t ∈ (view (run (mergeCall sha256) store calls)).2 hash ↔
      t ∈ (view store).2 hash ∨
        ∃ call ∈ calls, call.Merges sha256 ∧ t ∈ (contents sha256 call.archive).2 hash := by
  induction calls generalizing store with
  | nil => simp
  | cons call calls ih =>
    rw [run_cons, ih, List.exists_mem_cons_iff, ← or_assoc]
    apply or_congr_left
    by_cases h : call.Merges sha256
    · rw [mergeCall_of_merges h, view_absorb]
      simp only [h, true_and]
      rfl
    · rw [mergeCall_of_not_merges h]
      simp only [h, false_and, or_false]

theorem new_canonical : Canonical sha256 CorpusStore.new where
  seeds_nodup := List.nodup_nil
  keys hash := by simp [CorpusStore.new]
  tags_sorted hash tags h := by simp [CorpusStore.new] at h

theorem absorb_canonical {store : CorpusStore} (h : Canonical sha256 store)
    (packed : List (ArchiveEntry × CaseSeed)) : Canonical sha256 (absorb sha256 store packed) where
  seeds_nodup := by
    rw [absorb_seeds]
    exact nodup_addAllNew h.seeds_nodup _
  keys hash := by
    rw [absorb_lookup, absorb_seeds]
    simp only [mem_addAllNew, List.mem_map]
    by_cases hpacked : ∃ p ∈ packed, seedContentHash sha256 p.2 = hash
    · obtain ⟨p, hp, hhash⟩ := hpacked
      rw [if_pos ⟨p, hp, hhash⟩]
      exact iff_of_true rfl ⟨p.2, Or.inr ⟨p, hp, rfl⟩, hhash⟩
    · rw [if_neg hpacked, h.keys]
      constructor
      · rintro ⟨seed, hseed, hhash⟩
        exact ⟨seed, Or.inl hseed, hhash⟩
      · rintro ⟨seed, hseed | ⟨p, hp, rfl⟩, hhash⟩
        · exact ⟨seed, hseed, hhash⟩
        · exact absurd ⟨p, hp, hhash⟩ hpacked
  tags_sorted hash tags htags := by
    rw [absorb_lookup] at htags
    split_ifs at htags with hpacked
    · rw [← Option.some_inj.mp htags]
      exact sortDedup_pairwise_lt _
    · exact h.tags_sorted hash tags htags

theorem run_canonical (calls : List MergeCall) :
    Canonical sha256 (run (mergeCall sha256) CorpusStore.new calls) := by
  apply run_invariant _ new_canonical
  intro store call h
  by_cases hmerges : call.Merges sha256
  · rw [mergeCall_of_merges hmerges]
    exact absorb_canonical h _
  · rwa [mergeCall_of_not_merges hmerges]

theorem packedOf_seeds {call : MergeCall} (h : call.Merges sha256) :
    (packedOf call.archive).map Prod.snd = call.archive.seeds :=
  List.map_snd_zip (CorpusArchive.verify_ok_iff.mp h.1.1).entryCount.ge

theorem mem_run_seeds (store : CorpusStore) (calls : List MergeCall) (seed : CaseSeed) :
    seed ∈ (run (mergeCall sha256) store calls).seeds ↔
      seed ∈ store.seeds ∨ ∃ call ∈ calls, call.Merges sha256 ∧ seed ∈ call.archive.seeds := by
  induction calls generalizing store with
  | nil => simp
  | cons call calls ih =>
    rw [run_cons, ih, List.exists_mem_cons_iff, ← or_assoc]
    apply or_congr_left
    by_cases h : call.Merges sha256
    · rw [mergeCall_of_merges h, absorb_seeds, mem_addAllNew, packedOf_seeds h]
      simp only [h, true_and]
    · rw [mergeCall_of_not_merges h]
      simp only [h, false_and, or_false]

theorem absorb_provenance_congr (store : CorpusStore) {packed packed' : List (ArchiveEntry × CaseSeed)}
    (h : ∀ p, p ∈ packed ↔ p ∈ packed') :
    (absorb sha256 store packed).provenance = (absorb sha256 store packed').provenance := by
  apply Std.ExtTreeMap.ext_getElem?
  intro hash
  have htags : sortDedup ((absorb sha256 store packed).tagsFor hash) =
      sortDedup ((absorb sha256 store packed').tagsFor hash) := by
    apply sortDedup_eq_iff.mpr
    intro t
    simp only [mem_absorb_tagsFor, h]
  rw [absorb_lookup, absorb_lookup, htags]
  simp only [h]

theorem absorb_idem (store : CorpusStore) (packed : List (ArchiveEntry × CaseSeed)) :
    absorb sha256 (absorb sha256 store packed) packed = absorb sha256 store packed := by
  rw [CorpusStore.mk.injEq]
  constructor
  · rw [absorb_seeds]
    apply addAllNew_of_subset
    intro s hs
    rw [absorb_seeds, mem_addAllNew]
    exact Or.inr hs
  · rw [← absorb_append]
    apply absorb_provenance_congr
    intro p
    rw [List.mem_append, or_self]

theorem mergeCall_idem (store : CorpusStore) (call : MergeCall) :
    mergeCall sha256 (mergeCall sha256 store call) call = mergeCall sha256 store call := by
  by_cases h : call.Merges sha256
  · rw [mergeCall_of_merges h, mergeCall_of_merges h, absorb_idem]
  · rw [mergeCall_of_not_merges h, mergeCall_of_not_merges h]

theorem absorb_comm (store : CorpusStore) (packed packed' : List (ArchiveEntry × CaseSeed)) :
    (absorb sha256 (absorb sha256 store packed) packed').sortedSeeds =
        (absorb sha256 (absorb sha256 store packed') packed).sortedSeeds ∧
      (absorb sha256 (absorb sha256 store packed) packed').provenance =
        (absorb sha256 (absorb sha256 store packed') packed).provenance := by
  constructor
  · apply sortByKey_eq_of_perm seedOrder_injective
    simp only [absorb_seeds]
    exact addAllNew_comm_perm _ _ _
  · rw [← absorb_append, ← absorb_append]
    apply absorb_provenance_congr
    intro p
    rw [List.mem_append, List.mem_append, or_comm]

theorem mergeCall_comm (store : CorpusStore) (a b : MergeCall) :
    (mergeCall sha256 (mergeCall sha256 store a) b).sortedSeeds =
        (mergeCall sha256 (mergeCall sha256 store b) a).sortedSeeds ∧
      (mergeCall sha256 (mergeCall sha256 store a) b).provenance =
        (mergeCall sha256 (mergeCall sha256 store b) a).provenance := by
  by_cases ha : a.Merges sha256 <;> by_cases hb : b.Merges sha256
  · simp only [mergeCall_of_merges ha, mergeCall_of_merges hb]
    exact absorb_comm store _ _
  · simp only [mergeCall_of_not_merges hb, and_self]
  · simp only [mergeCall_of_not_merges ha, and_self]
  · simp only [mergeCall_of_not_merges ha, and_self]

theorem merges_join (sha256 : List UInt8 → List UInt8) (hsha : Function.Injective sha256) :
    (∀ seeds provenanceTags coverageNotes,
      (CorpusArchive.buildTagged sha256 seeds provenanceTags coverageNotes).verify sha256 = .ok ()) ∧
    (∀ calls : List MergeCall, (∀ call ∈ calls, ∀ seed ∈ call.archive.seeds, seed.id < 2 ^ 64) →
      Canonical sha256 (run (mergeCall sha256) CorpusStore.new calls) ∧
      (∀ seed, seed ∈ (run (mergeCall sha256) CorpusStore.new calls).seeds ↔
        ∃ call ∈ calls, call.Merges sha256 ∧ seed ∈ call.archive.seeds) ∧
      (∀ hash t, t ∈ (run (mergeCall sha256) CorpusStore.new calls).tagsFor hash ↔
        ∃ call ∈ calls, call.Merges sha256 ∧
          ∃ p ∈ packedOf call.archive, seedContentHash sha256 p.2 = hash ∧ t ∈ p.1.tags) ∧
      ∀ seed, seed.id < 2 ^ 64 → ∀ t,
        t ∈ (run (mergeCall sha256) CorpusStore.new calls).tagsFor (seedContentHash sha256 seed) ↔
          ∃ call ∈ calls, call.Merges sha256 ∧ ∃ p ∈ packedOf call.archive, p.2 = seed ∧ t ∈ p.1.tags) ∧
    (∀ store call, mergeCall sha256 (mergeCall sha256 store call) call = mergeCall sha256 store call) ∧
    (∀ store a b,
      (mergeCall sha256 (mergeCall sha256 store a) b).sortedSeeds =
          (mergeCall sha256 (mergeCall sha256 store b) a).sortedSeeds ∧
        (mergeCall sha256 (mergeCall sha256 store a) b).provenance =
          (mergeCall sha256 (mergeCall sha256 store b) a).provenance) := by
  refine ⟨?_, ?_, mergeCall_idem, mergeCall_comm⟩
  · intro seeds provenanceTags coverageNotes
    exact CorpusArchive.verify_ok_iff.mpr (CorpusArchive.buildTagged_verified _ _ _)
  · intro calls hids
    have htags : ∀ hash t, t ∈ (run (mergeCall sha256) CorpusStore.new calls).tagsFor hash ↔
        ∃ call ∈ calls, call.Merges sha256 ∧
          ∃ p ∈ packedOf call.archive, seedContentHash sha256 p.2 = hash ∧ t ∈ p.1.tags := by
      intro hash t
      have hempty : t ∉ (view CorpusStore.new).2 hash := by
        simp [view, CorpusStore.new, tagsFor]
      exact (mem_view_run_tags CorpusStore.new calls hash t).trans (or_iff_right hempty)
    refine ⟨run_canonical calls, ?_, htags, ?_⟩
    · intro seed
      rw [mem_run_seeds, or_iff_right]
      exact List.not_mem_nil
    · intro seed hbound t
      rw [htags]
      apply exists_congr
      intro call
      apply and_congr_right
      intro hcall
      apply and_congr_right
      intro _
      constructor
      · rintro ⟨p, hp, hhash, ht⟩
        have hpid : p.2.id < 2 ^ 64 := hids call hcall p.2 (List.of_mem_zip hp).2
        exact ⟨p, hp, seedContentHash_injOn hsha hpid hbound hhash, ht⟩
      · rintro ⟨p, hp, rfl, ht⟩
        exact ⟨p, hp, rfl, ht⟩

/-- SHA-256 of the texts behind two archives: seed 1 with payload `[1]` is in both, tagged `team-a` in the one and
`team-b` in the other, and seed 2 with payload `[2]` is in the second, tagged `team-a`. -/
def teamDigests : List (List UInt8 × List UInt8) :=
  let head := "schema\x1f1\x1eengine_version\x1f0.1.0\x1eseed_count\x1f"
  let first := "0d1ffc46c9756df50c95483b15bdcf4305fa9a50860962ed6c48ef97812cf2b3\x1eentry_id\x1f1\x1e"
  let second := "c453ea16034b5ba20d6cd906df43dbc7c2603cc2dfe335f0f0942322557eafd7\x1eentry_id\x1f2\x1e"
  [(seedPreimage ⟨1, [1]⟩,
      [13, 31, 252, 70, 201, 117, 109, 245, 12, 149, 72, 59, 21, 189, 207, 67, 5, 250, 154, 80, 134, 9, 98,
        237, 108, 72, 239, 151, 129, 44, 242, 179]),
    (seedPreimage ⟨2, [2]⟩,
      [196, 83, 234, 22, 3, 75, 91, 162, 13, 108, 217, 6, 223, 67, 219, 199, 194, 96, 60, 194, 223, 227, 53,
        240, 240, 148, 35, 34, 85, 126, 175, 215]),
    (SignatureHash.asBytes (head ++ "1\x1eentry_hash\x1f" ++ first ++
        "entry_len\x1f1\x1eentry_tag\x1fteam-a\x1ecoverage\x1f\x1e"),
      [110, 214, 214, 4, 237, 76, 28, 154, 166, 68, 15, 169, 97, 58, 154, 121, 35, 50, 176, 148, 160, 6, 37,
        60, 225, 163, 148, 217, 149, 149, 177, 17]),
    (SignatureHash.asBytes (head ++ "2\x1eentry_hash\x1f" ++ first ++
        "entry_len\x1f1\x1eentry_tag\x1fteam-b\x1eentry_hash\x1f" ++ second ++
        "entry_len\x1f1\x1eentry_tag\x1fteam-a\x1ecoverage\x1f\x1e"),
      [246, 7, 92, 184, 73, 206, 148, 115, 136, 21, 130, 108, 54, 150, 65, 142, 148, 14, 223, 4, 220, 227, 188,
        88, 153, 186, 123, 28, 57, 21, 203, 216])]

def teamCall (seeds : List TaggedSeed) : MergeCall where
  archive := CorpusArchive.buildTagged (tabulated teamDigests) seeds [] none
  policy := .allowCompatible
  currentEngine := currentEngineVersion
  dryRun := false

def teamCalls : List MergeCall :=
  [teamCall [⟨⟨1, [1]⟩, ["team-a"]⟩], teamCall [⟨⟨2, [2]⟩, ["team-a"]⟩, ⟨⟨1, [1]⟩, ["team-b"]⟩]]

theorem teamCall_seeds (seeds : List TaggedSeed) (seed : CaseSeed) :
    seed ∈ (teamCall seeds).archive.seeds ↔ ∃ ts ∈ seeds, ts.seed = seed := by
  rw [teamCall, CorpusArchive.buildTagged, List.mem_map]
  simp only [mem_sortByKey]

theorem teamCall_packed (seeds : List TaggedSeed) (p : ArchiveEntry × CaseSeed) :
    p ∈ packedOf (teamCall seeds).archive ↔ ∃ ts ∈ seeds, (packEntry (tabulated teamDigests) ts, ts.seed) = p := by
  rw [packedOf, teamCall, CorpusArchive.buildTagged, List.zip_map', List.mem_map]
  simp only [mem_sortByKey]

theorem two_archives_joined :
    (∀ seed, seed ∈ (run (mergeCall (tabulated teamDigests)) CorpusStore.new teamCalls).seeds ↔
      seed = ⟨1, [1]⟩ ∨ seed = ⟨2, [2]⟩) ∧
    ∀ t, t ∈ (run (mergeCall (tabulated teamDigests)) CorpusStore.new teamCalls).tagsFor
      (seedContentHash (tabulated teamDigests) ⟨1, [1]⟩) ↔ t = "team-a" ∨ t = "team-b" := by
  have hsha : Function.Injective (tabulated teamDigests) := tabulated_injective (by decide) (by decide)
  have hids : ∀ call ∈ teamCalls, ∀ seed ∈ call.archive.seeds, seed.id < 2 ^ 64 := by
    intro call hcall seed hseed
    rcases List.mem_pair.mp hcall with rfl | rfl
    · obtain ⟨ts, hts, rfl⟩ := (teamCall_seeds _ seed).mp hseed
      rw [List.mem_singleton.mp hts]
      norm_num
    · obtain ⟨ts, hts, rfl⟩ := (teamCall_seeds _ seed).mp hseed
      rcases List.mem_pair.mp hts with rfl | rfl <;> norm_num
  obtain ⟨hverify, hjoin, -⟩ := merges_join (tabulated teamDigests) hsha
  obtain ⟨-, hseeds, -, htags⟩ := hjoin teamCalls hids
  have hmerges : ∀ seeds, (teamCall seeds).Merges (tabulated teamDigests) :=
    fun seeds => ⟨⟨hverify seeds [] none, .inl rfl⟩, rfl⟩
  constructor
  · intro seed
    rw [hseeds]
    simp [teamCalls, teamCall_seeds, hmerges, eq_comm, or_comm]
  · intro t
    rw [htags ⟨1, [1]⟩ (by norm_num)]
    simp [teamCalls, teamCall_packed, hmerges, packEntry]

end CorpusStore

variable (sha256 : List UInt8 → List UInt8)

def TagsAgree (seeds : List TaggedSeed) : Prop :=
  ∀ a ∈ seeds, ∀ b ∈ seeds, a.seed = b.seed → ∀ t, t ∈ a.tags ↔ t ∈ b.tags

def buildOrder (ts : TaggedSeed) : ℕ ×ₗ List ℕ := seedOrder ts.seed

namespace CorpusArchive

theorem buildTagged_congr {seeds seeds' : List TaggedSeed}
    (hseeds : (sortByKey buildOrder seeds).map TaggedSeed.seed = (sortByKey buildOrder seeds').map TaggedSeed.seed)
    (hentries : (sortByKey buildOrder seeds).map (packEntry sha256) =
      (sortByKey buildOrder seeds').map (packEntry sha256)) (provenanceTags : List String)
    (coverageNotes : Option String) :
    buildTagged sha256 seeds provenanceTags coverageNotes =
      buildTagged sha256 seeds' provenanceTags coverageNotes := by
  have hbuild : ∀ l, sortByKey (fun ts : TaggedSeed => seedOrder ts.seed) l = sortByKey buildOrder l :=
    fun _ => rfl
  unfold buildTagged
  simp only [hbuild, hseeds, hentries]

theorem packEntry_eq_iff {a b : TaggedSeed} (h : a.seed = b.seed) :
    packEntry sha256 a = packEntry sha256 b ↔ ∀ t, t ∈ a.tags ↔ t ∈ b.tags := by
  rw [← sortDedup_eq_iff, packEntry, packEntry, h]
  simp only [ArchiveEntry.mk.injEq, true_and]

theorem buildTagged_eq_of_perm {seeds seeds' : List TaggedSeed} (h : seeds'.Perm seeds)
    (hagree : TagsAgree seeds) (provenanceTags : List String) (coverageNotes : Option String) :
    buildTagged sha256 seeds' provenanceTags coverageNotes =
      buildTagged sha256 seeds provenanceTags coverageNotes := by
  have hagree' : TagsAgree seeds' := fun a ha b hb => hagree a (h.mem_iff.mp ha) b (h.mem_iff.mp hb)
  apply buildTagged_congr
  · apply map_sortByKey_eq h
    intro a _ b _ hkey
    exact seedOrder_injective hkey
  · apply map_sortByKey_eq h
    intro a ha b hb hkey
    have hseed : a.seed = b.seed := seedOrder_injective hkey
    exact (packEntry_eq_iff sha256 hseed).mpr (hagree' a ha b hb hseed)

theorem entries_of_seed (seeds : List TaggedSeed) (seed : CaseSeed) :
    ((((sortByKey buildOrder seeds).map TaggedSeed.seed).zip
        ((sortByKey buildOrder seeds).map (packEntry sha256))).filter (fun p => seedOrder p.1 = seedOrder seed)) =
      (seeds.filter (fun ts => buildOrder ts = seedOrder seed)).map fun ts => (ts.seed, packEntry sha256 ts) := by
  rw [List.zip_map', List.filter_map]
  apply congrArg
  apply filter_sortByKey
  intro a b ha hb
  exact (of_decide_eq_true ha).trans (of_decide_eq_true hb).symm

theorem packEntry_eq_of_swap {a b : TaggedSeed} {rest : List TaggedSeed} (h : a.seed = b.seed)
    {provenanceTags : List String} {coverageNotes : Option String}
    (hbuild : buildTagged sha256 (a :: b :: rest) provenanceTags coverageNotes =
      buildTagged sha256 (b :: a :: rest) provenanceTags coverageNotes) :
    packEntry sha256 a = packEntry sha256 b := by
  have hseeds : (sortByKey buildOrder (a :: b :: rest)).map TaggedSeed.seed =
      (sortByKey buildOrder (b :: a :: rest)).map TaggedSeed.seed := congrArg CorpusArchive.seeds hbuild
  have hentries : (sortByKey buildOrder (a :: b :: rest)).map (packEntry sha256) =
      (sortByKey buildOrder (b :: a :: rest)).map (packEntry sha256) :=
    congrArg (fun archive => archive.manifest.entries) hbuild
  have hfirst := entries_of_seed sha256 (a :: b :: rest) a.seed
  have hsecond := entries_of_seed sha256 (b :: a :: rest) a.seed
  rw [hseeds, hentries, hsecond] at hfirst
  have ha : buildOrder a = seedOrder a.seed := rfl
  have hb : buildOrder b = seedOrder a.seed := by rw [h]; rfl
  simp only [List.filter_cons, ha, hb, decide_true, if_true, List.map_cons, List.cons.injEq,
    Prod.mk.injEq] at hfirst
  exact hfirst.1.2.symm

theorem buildTagged_order_free_iff (seeds : List TaggedSeed) (provenanceTags : List String)
    (coverageNotes : Option String) :
    (∀ seeds' : List TaggedSeed, seeds'.Perm seeds →
      buildTagged sha256 seeds' provenanceTags coverageNotes =
        buildTagged sha256 seeds provenanceTags coverageNotes) ↔ TagsAgree seeds := by
  constructor
  · intro hfree a ha b hb hseed
    by_cases hab : a = b
    · rw [hab]
      exact fun _ => Iff.rfl
    · obtain ⟨rest, hrest⟩ : ∃ rest, seeds.Perm (a :: b :: rest) := by
        have hb' : b ∈ seeds.erase a := (List.mem_erase_of_ne (Ne.symm hab)).mpr hb
        exact ⟨_, (List.perm_cons_erase ha).trans ((List.perm_cons_erase hb').cons a)⟩
      have hfirst := hfree (a :: b :: rest) hrest.symm
      have hsecond := hfree (b :: a :: rest) ((List.Perm.swap a b rest).trans hrest.symm)
      rw [← packEntry_eq_iff sha256 hseed]
      exact packEntry_eq_of_swap sha256 hseed (hfirst.trans hsecond.symm)
  · intro hagree seeds' h
    exact buildTagged_eq_of_perm sha256 h hagree provenanceTags coverageNotes

def twiceTagged : List TaggedSeed := [⟨⟨1, [1]⟩, ["team-a"]⟩, ⟨⟨1, [1]⟩, ["team-b"]⟩]

theorem buildTagged_keeps_input_order :
    ¬∃ sha256, ∀ seeds' : List TaggedSeed, seeds'.Perm twiceTagged →
      buildTagged sha256 seeds' [] none = buildTagged sha256 twiceTagged [] none := by
  rintro ⟨sha256, h⟩
  have hswap := h twiceTagged.reverse (List.reverse_perm _)
  have htags := congrArg (fun archive => archive.manifest.entries.map ArchiveEntry.tags) hswap
  have hforward : (buildTagged sha256 twiceTagged [] none).manifest.entries.map ArchiveEntry.tags =
      [["team-a"], ["team-b"]] := rfl
  have hbackward : (buildTagged sha256 twiceTagged.reverse [] none).manifest.entries.map ArchiveEntry.tags =
      [["team-b"], ["team-a"]] := rfl
  simp only [hforward, hbackward] at htags
  exact absurd htags (by decide)

end CorpusArchive

end CrashLab.Archive
