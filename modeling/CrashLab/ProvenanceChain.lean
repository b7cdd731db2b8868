import CrashLab.ProvenanceSeal

namespace CrashLab.Provenance.ProvenanceRecord

open Delimited Digest

open SignatureHash (asBytes)

variable {sha256 : List UInt8 → List UInt8}

theorem contentHash_plain {r : ProvenanceRecord} (h : verify sha256 r = .ok ()) :
    recordSep ∉ r.contentHash.toList := by
  rw [(verify_ok_iff.mp h).2.2]
  exact recordSep_not_mem (fieldSep_not_mem_sha256Hex sha256 _)

theorem covered_eq_of_linked (hsha : Function.Injective sha256) {r r' : ProvenanceRecord}
    {previous previous' : Option String} (hclear : Unambiguous r) (hverify : verify sha256 r = .ok ())
    (hverify' : verify sha256 r' = .ok ()) (hlink : r.previousHash = previous) (hlink' : r'.previousHash = previous')
    (hplain : recordSep ∉ (previous.getD "").toList) (hplain' : recordSep ∉ (previous'.getD "").toList)
    (hroot : previous = none ↔ previous' = none) (h : r'.contentHash = r.contentHash) :
    covered r' = covered r ∧ previous' = previous := by
  rw [(verify_ok_iff.mp hverify).2.2, (verify_ok_iff.mp hverify').2.2] at h
  have hchars := (contentHash_eq_iff hsha).mp h.symm
  subst hlink hlink'
  obtain ⟨hschema, hrun, hfront, htext⟩ := front_eq_of_plain hclear hplain hplain' hchars
  have hprevious : r.previousHash = r'.previousHash := by
    cases hr : r.previousHash with
    | none => exact (hroot.mp hr).symm
    | some hash =>
      cases hr' : r'.previousHash with
      | none => exact absurd (hroot.mpr hr') (by rw [hr]; exact Option.some_ne_none _)
      | some hash' =>
        rw [previousText, previousText, hr, hr'] at htext
        exact congrArg some htext
  exact ⟨(covered_eq hschema hrun hfront hprevious).symm, hprevious.symm⟩

theorem covered_eq_of_chain (hsha : Function.Injective sha256) {r r' : ProvenanceRecord}
    {records records' : List ProvenanceRecord} {index : ℕ} {previous previous' : Option String}
    (hclear : ∀ s ∈ r :: records, Unambiguous s)
    (hchain : verifyFrom sha256 index previous (r :: records) = .ok ())
    (hchain' : verifyFrom sha256 index previous' (r' :: records') = .ok ())
    (hplain : recordSep ∉ (previous.getD "").toList) (hplain' : recordSep ∉ (previous'.getD "").toList)
    (hroot : previous = none ↔ previous' = none) (hlength : records'.length = records.length)
    (hend : (r' :: records').getLast?.map contentHash = (r :: records).getLast?.map contentHash) :
    (r' :: records').map covered = (r :: records).map covered ∧ previous' = previous := by
  induction records generalizing r r' records' index previous previous' with
  | nil =>
    obtain rfl := List.length_eq_zero_iff.mp hlength
    obtain ⟨hverify, hlink, _⟩ := verifyFrom_cons_ok_iff.mp hchain
    obtain ⟨hverify', hlink', _⟩ := verifyFrom_cons_ok_iff.mp hchain'
    obtain ⟨hcovered, hprevious⟩ := covered_eq_of_linked hsha (hclear r (List.mem_singleton_self r)) hverify hverify'
      hlink hlink' hplain hplain' hroot (Option.some.inj hend)
    exact ⟨congrArg (fun c => [c]) hcovered, hprevious⟩
  | cons s records ih =>
    cases records' with
    | nil => exact absurd hlength (by simp)
    | cons s' records' =>
      obtain ⟨hverify, hlink, hrest⟩ := verifyFrom_cons_ok_iff.mp hchain
      obtain ⟨hverify', hlink', hrest'⟩ := verifyFrom_cons_ok_iff.mp hchain'
      rw [List.forall_mem_cons] at hclear
      rw [List.getLast?_cons_cons, List.getLast?_cons_cons] at hend
      obtain ⟨hcovered, hhash⟩ := ih hclear.2 hrest hrest' (contentHash_plain hverify) (contentHash_plain hverify')
        (iff_of_false (Option.some_ne_none _) (Option.some_ne_none _)) (Nat.succ.inj hlength) hend
      obtain ⟨hcovered', hprevious⟩ := covered_eq_of_linked hsha hclear.1 hverify hverify' hlink hlink' hplain
        hplain' hroot (Option.some.inj hhash)
      exact ⟨congrArg₂ List.cons hcovered' hcovered, hprevious⟩

theorem verifyFrom_replace {r r' : ProvenanceRecord} (hverify : verify sha256 r = .ok () → verify sha256 r' = .ok ())
    (hlink : r'.previousHash = r.previousHash) (hhash : r'.contentHash = r.contentHash)
    {before after : List ProvenanceRecord} {index : ℕ} {previous : Option String}
    (h : verifyFrom sha256 index previous (before ++ r :: after) = .ok ()) :
    verifyFrom sha256 index previous (before ++ r' :: after) = .ok () := by
  induction before generalizing index previous with
  | nil =>
    rw [List.nil_append, verifyFrom_cons_ok_iff] at h
    rw [List.nil_append, verifyFrom_cons_ok_iff, hlink, hhash]
    exact ⟨hverify h.1, h.2⟩
  | cons s before ih =>
    rw [List.cons_append, verifyFrom_cons_ok_iff] at h
    rw [List.cons_append, verifyFrom_cons_ok_iff]
    exact ⟨h.1, h.2.1, ih h.2.2⟩

theorem exists_verified_twin {r : ProvenanceRecord} (h : ¬Unambiguous r) :
    ∃ r', covered r' ≠ covered r ∧ r'.previousHash = r.previousHash ∧ r'.contentHash = r.contentHash ∧
      (verify sha256 r = .ok () → verify sha256 r' = .ok ()) := by
  obtain ⟨twin, ⟨hchars, hcovered⟩, hschema, hprevious⟩ := exists_twin h
  refine ⟨{ twin with contentHash := r.contentHash }, hcovered, hprevious, rfl, ?_⟩
  intro hverify
  obtain ⟨hversion, hsealed, hhash⟩ := verify_ok_iff.mp hverify
  refine verify_ok_iff.mpr ⟨hschema.trans hversion, hsealed, ?_⟩
  change r.contentHash = computeContentHash sha256 twin
  rw [hhash, computeContentHash, computeContentHash, canonicalEncoding_eq, canonicalEncoding_eq, hchars]

theorem unambiguous_of_chain {chain : List ProvenanceRecord} (hchain : verifyChain sha256 chain = .ok ())
    (h : ∀ chain', verifyChain sha256 chain' = .ok () → chain'.length = chain.length →
      chain'.getLast?.map contentHash = chain.getLast?.map contentHash → chain'.map covered = chain.map covered) :
    ∀ r ∈ chain, Unambiguous r := by
  intro r hr
  by_contra hclear
  obtain ⟨before, after, rfl⟩ := List.append_of_mem hr
  obtain ⟨r', hcovered, hlink, hhash, hverify⟩ := @exists_verified_twin sha256 r hclear
  have hlast : (before ++ r' :: after).getLast?.map contentHash = (before ++ r :: after).getLast?.map contentHash := by
    rw [List.getLast?_append_of_ne_nil _ (List.cons_ne_nil _ _), List.getLast?_append_of_ne_nil _ (List.cons_ne_nil _ _)]
    cases after with
    | nil => exact congrArg some hhash
    | cons s after => rw [List.getLast?_cons_cons, List.getLast?_cons_cons]
  have hmap := h _ (verifyFrom_replace hverify hlink hhash hchain) (by simp) hlast
  rw [List.map_append, List.map_append, List.append_cancel_left_eq] at hmap
  exact hcovered (List.cons.inj hmap).1

theorem seal_binds_iff (hsha : Function.Injective sha256) :
    (∀ r, (∀ r', (sealRecord sha256 r').contentHash = (sealRecord sha256 r).contentHash → covered r' = covered r) ↔
      Unambiguous r ∧ LinkClear r) ∧
    ∀ chain, verifyChain sha256 chain = .ok () →
      ((∀ chain', verifyChain sha256 chain' = .ok () → chain'.length = chain.length →
        chain'.getLast?.map contentHash = chain.getLast?.map contentHash → chain'.map covered = chain.map covered) ↔
      ∀ r ∈ chain, Unambiguous r) := by
  constructor
  · intro r
    constructor
    · intro h
      have hbound : ∀ r', ¬Twin r r' := by
        rintro r' ⟨hchars, hcovered⟩
        exact hcovered (h r' ((contentHash_eq_iff hsha).mpr hchars))
      constructor
      · by_contra hclear
        obtain ⟨r', htwin, _⟩ := exists_twin hclear
        exact hbound r' htwin
      · by_contra hlink
        obtain ⟨r', htwin⟩ := exists_previous_twin hlink
        exact hbound r' htwin
    · rintro ⟨hclear, hlink⟩ r' h
      exact (covered_eq_of_clear hclear hlink ((contentHash_eq_iff hsha).mp h.symm)).symm
  · intro chain hchain
    constructor
    · exact unambiguous_of_chain hchain
    · intro hclear chain' hchain' hlength hend
      cases chain with
      | nil => rw [List.length_eq_zero_iff.mp hlength]
      | cons r records =>
        cases chain' with
        | nil => exact absurd hlength (by simp)
        | cons r' records' =>
          exact (covered_eq_of_chain hsha hclear hchain hchain' (by decide) (by decide) Iff.rfl
            (Nat.succ.inj hlength) hend).1

theorem verifyChain_sealed {r : ProvenanceRecord} (hschema : r.schema = provenanceSchemaVersion)
    (hroot : r.previousHash = none) (hhash : computeContentHash sha256 r ≠ "") :
    verifyChain sha256 [sealRecord sha256 r] = .ok () :=
  verifyFrom_cons_ok_iff.mpr ⟨verify_ok_iff.mpr ⟨hschema, hhash, rfl⟩, hroot, rfl⟩

def sampleFront : List UInt8 :=
  asBytes "schema\x1f1\x1erun_id\x1frun-1\x1eseed_id\x1f7\x1eengine_version\x1f0.1.0\x1e" ++
    asBytes "environment_fingerprint_hash\x1fenv\x1ecapture_timestamp\x1ft\x1eexpected_signature\x1fa\x1e"

def recordDigests : List (List UInt8 × List UInt8) :=
  [(sampleFront ++ asBytes "previous_hash\x1f\x1e",
    [37, 113, 218, 8, 192, 121, 208, 184, 187, 175, 9, 43, 8, 16, 137, 71, 46, 137, 0, 163, 186, 10, 149,
      39, 210, 234, 153, 125, 242, 63, 160, 128]),
    (sampleFront ++ asBytes "expected_signature\x1fb\x1eprevious_hash\x1f\x1e",
    [242, 163, 184, 12, 144, 200, 128, 172, 57, 127, 113, 14, 79, 76, 82, 162, 88, 191, 65, 75, 75, 91, 149,
      91, 189, 220, 138, 118, 89, 109, 97, 76])]

def sampleFields (captureTimestamp expectedSignature : String) : ProvenanceRecord :=
  new "run-1" 7 "0.1.0" "env" captureTimestamp expectedSignature

def sampleRecord (captureTimestamp expectedSignature : String) : ProvenanceRecord :=
  sealRecord (tabulated recordDigests) (sampleFields captureTimestamp expectedSignature)

theorem recordDigests_injective : Function.Injective (tabulated recordDigests) :=
  tabulated_injective (by decide) (by decide)

theorem sampleRecord_chain {time sig : String} (h : (sampleRecord time sig).contentHash ≠ "") :
    verifyChain (tabulated recordDigests) [sampleRecord time sig] = .ok () :=
  verifyChain_sealed rfl rfl h

theorem sampleRecord_hash : (sampleRecord "t" "a").contentHash =
    "2571da08c079d0b8bbaf092b081089472e8900a3ba0a9527d2ea997df23fa080" := by decide +kernel

theorem seal_binds_plain_record :
    verifyChain (tabulated recordDigests) [sampleRecord "t" "a"] = .ok () ∧
      ∀ chain', verifyChain (tabulated recordDigests) chain' = .ok () → chain'.length = 1 →
        chain'.getLast?.map contentHash =
          some "2571da08c079d0b8bbaf092b081089472e8900a3ba0a9527d2ea997df23fa080" →
        chain'.map covered = [covered (sampleRecord "t" "a")] := by
  have hchain := sampleRecord_chain (by rw [sampleRecord_hash]; decide)
  refine ⟨hchain, ?_⟩
  intro chain' hchain' hlength hend
  apply ((seal_binds_iff recordDigests_injective).2 _ hchain).mpr _ chain' hchain' hlength
  · rw [hend, ← sampleRecord_hash]
    rfl
  · intro r hr
    rw [List.mem_singleton.mp hr]
    exact unambiguous_of_plain (by decide) (by decide) (by decide) (by decide) (by decide)

theorem sampleRecord_hash_eq {time sig time' sig' : String}
    (h : (sampleFields time sig).canonicalChars = (sampleFields time' sig').canonicalChars) :
    (sampleRecord time sig).contentHash = (sampleRecord time' sig').contentHash :=
  (contentHash_eq_iff recordDigests_injective).mpr h

theorem seal_misses_separators :
    ¬∀ sha256 : List UInt8 → List UInt8, Function.Injective sha256 →
      (∀ r r', (sealRecord sha256 r').contentHash = (sealRecord sha256 r).contentHash →
        covered r' = covered r) ∨
      ∀ chain chain', verifyChain sha256 chain = .ok () → verifyChain sha256 chain' = .ok () →
        chain'.length = chain.length → chain'.getLast?.map contentHash = chain.getLast?.map contentHash →
        chain'.map covered = chain.map covered := by
  intro h
  let time := "t\x1eexpected_signature\x1fa"
  let sig := "a\x1eexpected_signature\x1fb"
  have hne : time ≠ "t" := by decide
  have hhash : (sampleRecord time "b").contentHash = (sampleRecord "t" sig).contentHash :=
    sampleRecord_hash_eq (by decide +kernel)
  rcases h _ recordDigests_injective with hrecord | hchain
  · have hcovered := hrecord (sampleFields "t" sig) (sampleFields time "b") hhash
    exact hne (congrArg ProvenanceRecord.captureTimestamp hcovered)
  · have hsealed : (sampleRecord "t" sig).contentHash ≠ "" := by decide +kernel
    have hsealed' : (sampleRecord time "b").contentHash ≠ "" := by
      rw [hhash]
      exact hsealed
    have hend : [sampleRecord time "b"].getLast?.map contentHash =
        [sampleRecord "t" sig].getLast?.map contentHash := by
      rw [List.getLast?_singleton, List.getLast?_singleton, Option.map_some, Option.map_some, hhash]
    have hmap := hchain _ _ (sampleRecord_chain hsealed) (sampleRecord_chain hsealed') rfl hend
    have hcovered : covered (sampleRecord time "b") = covered (sampleRecord "t" sig) := List.singleton_inj.mp hmap
    exact hne (congrArg ProvenanceRecord.captureTimestamp hcovered)

end CrashLab.Provenance.ProvenanceRecord
