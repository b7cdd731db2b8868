import CrashLab.AuditLog

namespace CrashLab.Audit

open Decimals JsStrings JsonTexts SignatureHash Digest

section Preimage

theorem entryPreimage_injective {a b : Unhashed} (hsequence : a.sequence = b.sequence)
    (h : entryPreimage a = entryPreimage b) : a = b := by
  have hfields := Json.array.inj (stringify_injective h)
  obtain ⟨sequence, timestamp, actor, action, target, metadata, orgId, prevHash⟩ := a
  obtain ⟨sequence', timestamp', actor', action', target', metadata', orgId', prevHash'⟩ := b
  simp only [List.cons_append, List.nil_append, List.cons.injEq, Json.string.injEq] at hfields hsequence
  obtain ⟨-, rfl, rfl, rfl, rfl, rfl, rfl, horg⟩ := hfields
  have horg' : orgId = orgId' := by
    cases orgId <;> cases orgId' <;> simp_all
  rw [hsequence, horg']

theorem hashEntry_injective {sha256 : List UInt8 → List UInt8} (hsha : Function.Injective sha256) {a b : Unhashed}
    (hsequence : a.sequence = b.sequence) (h : hashEntry sha256 a = hashEntry sha256 b) : a = b := by
  apply entryPreimage_injective hsequence
  apply String.ofList_injective
  apply asBytes_injective
  apply sha256Hex_injective hsha
  exact ofString_injective h

end Preimage

section Links

variable (sha256 : List UInt8 → List UInt8)

def lastHash (prev : JsString) (entries : List AuditEntry) : JsString :=
  (entries.getLast?.map AuditEntry.hash).getD prev

def Linked (prev : JsString) (index : ℕ) (entry : AuditEntry) : Prop :=
  entry.sequence = index + 1 ∧ entry.prevHash = prev ∧ hashEntry sha256 entry.toUnhashed = entry.hash

theorem verifyFrom_cons_intact {prev : JsString} {index : ℕ} {entry : AuditEntry} {entries : List AuditEntry} :
    verifyFrom sha256 prev index (entry :: entries) = .intact ↔
      Linked sha256 prev index entry ∧ verifyFrom sha256 entry.hash (index + 1) entries = .intact := by
  rw [verifyFrom, Linked]
  split_ifs with hsequence hprev hhash <;> simp_all

theorem lastHash_cons (prev : JsString) (entry : AuditEntry) (entries : List AuditEntry) :
    lastHash prev (entry :: entries) = lastHash entry.hash entries := by
  cases entries with
  | nil => rfl
  | cons next entries => simp [lastHash, List.getLast?_cons]

theorem verifyFrom_concat_intact {prev : JsString} {index : ℕ} {entries : List AuditEntry} {entry : AuditEntry} :
    verifyFrom sha256 prev index (entries ++ [entry]) = .intact ↔
      verifyFrom sha256 prev index entries = .intact ∧
        Linked sha256 (lastHash prev entries) (index + entries.length) entry := by
  induction entries generalizing prev index with
  | nil =>
    rw [List.nil_append, verifyFrom_cons_intact]
    simp [verifyFrom, lastHash]
  | cons first entries ih =>
    rw [List.cons_append, verifyFrom_cons_intact, ih, verifyFrom_cons_intact, lastHash_cons, List.length_cons,
      and_assoc, Nat.add_right_comm, ← Nat.add_assoc]

theorem verifyChain_intact {entries : List AuditEntry} :
    verifyChain sha256 entries = .intact ↔ entries ≠ [] ∧ verifyFrom sha256 genesisHash 0 entries = .intact := by
  cases entries <;> simp [verifyChain]

variable {sha256}

theorem chain_unique (hsha : Function.Injective sha256) {prev : JsString} {index : ℕ} {a b : List AuditEntry}
    (ha : verifyFrom sha256 prev index a = .intact) (hb : verifyFrom sha256 prev index b = .intact)
    (hlength : a.length = b.length) (hlast : lastHash prev a = lastHash prev b) : a = b := by
  induction a using List.reverseRecOn generalizing b with
  | nil => exact (List.length_eq_zero_iff.mp hlength.symm).symm
  | append_singleton a x ih =>
    rcases List.eq_nil_or_concat b with rfl | ⟨b, y, rfl⟩
    · simp at hlength
    · rw [List.concat_eq_append] at hb hlength hlast ⊢
      rw [verifyFrom_concat_intact] at ha hb
      obtain ⟨hachain, hxsequence, hxprev, hxhash⟩ := ha
      obtain ⟨hbchain, hysequence, hyprev, hyhash⟩ := hb
      have hlength' : a.length = b.length := by simpa using hlength
      have hhash : x.hash = y.hash := by simpa [lastHash] using hlast
      have hunhashed : x.toUnhashed = y.toUnhashed := by
        apply hashEntry_injective hsha
        · rw [hxsequence, hysequence, hlength']
        · rw [hxhash, hyhash, hhash]
      have hxy : x = y := by
        cases x
        cases y
        simp_all
      have hprev : lastHash prev a = lastHash prev b := by rw [← hxprev, ← hyprev, hxy]
      rw [ih hachain hbchain hlength' hprev, hxy]

end Links

section Appends

variable (sha256 : List UInt8 → List UInt8) (clearUrl : JsString → Option JsString)

theorem save_prefix (entries added : List AuditEntry) : save entries (entries ++ added) = .ok (entries ++ added) := by
  have hfind : (entries.zipIdx.find? fun entry =>
      ((entries ++ added)[entry.2]?).map entryText ≠ some (entryText entry.1)) = none := by
    rw [List.find?_eq_none]
    rintro ⟨entry, i⟩ hmem
    have hget := List.mem_zipIdx_iff_getElem?.mp hmem
    have hlt := (List.getElem?_eq_some_iff.mp hget).1
    rw [List.getElem?_append_left hlt, hget]
    simp
  rw [save, if_neg (by simp), hfind]

theorem append_ok (entries : List AuditEntry) (timestamp : JsString) (input : AuditEntryInput) :
    append sha256 clearUrl entries timestamp input =
      .ok (entries ++ [entryFor sha256 clearUrl entries timestamp input]) := save_prefix _ _

theorem entryFor_linked (entries : List AuditEntry) (timestamp : JsString) (input : AuditEntryInput) :
    Linked sha256 (lastHash genesisHash entries) (0 + entries.length)
      (entryFor sha256 clearUrl entries timestamp input) :=
  ⟨by rw [Nat.zero_add]; rfl, rfl, rfl⟩

theorem appendAll_spec (calls : List (JsString × AuditEntryInput)) {entries : List AuditEntry}
    (h : verifyFrom sha256 genesisHash 0 entries = .intact) :
    ∃ added, appendAll sha256 clearUrl entries calls = .ok (entries ++ added) ∧ added.length = calls.length ∧
      verifyFrom sha256 genesisHash 0 (entries ++ added) = .intact := by
  induction calls generalizing entries with
  | nil => exact ⟨[], by simp [appendAll], rfl, by simpa using h⟩
  | cons call calls ih =>
    obtain ⟨timestamp, input⟩ := call
    have hnext := (verifyFrom_concat_intact sha256).mpr ⟨h, entryFor_linked sha256 clearUrl entries timestamp input⟩
    obtain ⟨added, hok, hlength, hintact⟩ := ih hnext
    rw [List.append_assoc] at hok hintact
    refine ⟨_, ?_, ?_, hintact⟩
    · simp only [appendAll, append_ok]
      exact hok
    · simp [hlength]

theorem appendAll_append (entries : List AuditEntry) (calls calls' : List (JsString × AuditEntryInput)) :
    appendAll sha256 clearUrl entries (calls ++ calls') =
      (appendAll sha256 clearUrl entries calls >>= fun entries => appendAll sha256 clearUrl entries calls') := by
  induction calls generalizing entries with
  | nil => rfl
  | cons call calls ih =>
    obtain ⟨timestamp, input⟩ := call
    simp only [List.cons_append, appendAll, append_ok]
    exact ih _

theorem sequence_of_intact {prev : JsString} {index : ℕ} {entries : List AuditEntry}
    (h : verifyFrom sha256 prev index entries = .intact) :
    entries.map (·.sequence) = (List.range entries.length).map (index + · + 1) := by
  induction entries generalizing prev index with
  | nil => rfl
  | cons entry entries ih =>
    rw [verifyFrom_cons_intact] at h
    rw [List.map_cons, ih h.2, h.1.1, List.length_cons, List.range_succ_eq_map, List.map_cons, List.map_map]
    congr 1
    apply List.map_congr_left
    intro i _
    simp only [Function.comp_apply]
    omega

end Appends

theorem audit_log_tamper_evident (sha256 : List UInt8 → List UInt8) (clearUrl : JsString → Option JsString)
    (hsha : Function.Injective sha256) :
    (∀ calls, calls ≠ [] → ∃ entries, appendAll sha256 clearUrl [] calls = .ok entries ∧
      verifyChain sha256 entries = .intact ∧ entries.map (·.sequence) = (List.range calls.length).map (· + 1) ∧
      ∀ calls', ∃ entries', appendAll sha256 clearUrl [] (calls ++ calls') = .ok entries' ∧ entries <+: entries') ∧
    ∀ a b, a.length = b.length → verifyChain sha256 a = .intact → verifyChain sha256 b = .intact →
      a.getLast?.map AuditEntry.hash = b.getLast?.map AuditEntry.hash →
      a.map AuditEntry.toUnhashed = b.map AuditEntry.toUnhashed := by
  constructor
  · intro calls hcalls
    have hempty : verifyFrom sha256 genesisHash 0 [] = .intact := rfl
    obtain ⟨entries, hok, hlength, hintact⟩ := appendAll_spec sha256 clearUrl calls hempty
    rw [List.nil_append] at hok hintact
    have hne : entries ≠ [] := by
      intro hnil
      rw [hnil, List.length_nil, eq_comm, List.length_eq_zero_iff] at hlength
      exact hcalls hlength
    refine ⟨entries, hok, (verifyChain_intact sha256).mpr ⟨hne, hintact⟩, ?_, ?_⟩
    · have hsequence := sequence_of_intact sha256 hintact
      rw [hsequence, hlength]
      simp
    · intro calls'
      obtain ⟨added, hmore, -, -⟩ := appendAll_spec sha256 clearUrl calls' hintact
      refine ⟨entries ++ added, ?_, List.prefix_append _ _⟩
      rw [appendAll_append, hok]
      exact hmore
  · intro a b hlength ha hb hlast
    rw [verifyChain_intact] at ha hb
    rw [chain_unique hsha ha.2 hb.2 hlength (by rw [lastHash, lastHash, hlast])]

section Sample

def firstPreimage : String :=
  "[1,\"2026-01-01T00:00:00.000Z\",\"alice\",\"run.delete\",\"run-1\",\x7b\"count\":2\x7d," ++
    "\"0000000000000000000000000000000000000000000000000000000000000000\"]"

def sampleSha256 : List UInt8 → List UInt8 :=
  tabulated [(asBytes firstPreimage,
    [0xf1, 0xc0, 0x17, 0xcd, 0x1e, 0xcf, 0xbb, 0x41, 0x5f, 0x50, 0x7a, 0xb7, 0x31, 0x9f, 0x3f, 0xe3,
      0x48, 0x5d, 0x3a, 0x50, 0xfc, 0x23, 0xa9, 0x4c, 0xcf, 0x78, 0xfa, 0x32, 0xd3, 0x15, 0xc3, 0xc5])]

def firstCall : JsString × AuditEntryInput :=
  (text "2026-01-01T00:00:00.000Z",
    { action := .runDelete
      target := text "run-1"
      actor := some (text " alice ")
      metadata := some [(text "count", .number (Decimal.ofNat 2))] })

def firstEntry : AuditEntry := entryFor sampleSha256 (fun _ => none) [] firstCall.1 firstCall.2

theorem sampleSha256_injective : Function.Injective sampleSha256 := tabulated_injective (by decide) (by decide)

theorem firstEntry_preimage : entryPreimage firstEntry.toUnhashed = firstPreimage.toList := by
  unfold firstPreimage
  rw [String.toList_append]
  iterate 2 rw [String.toList_ofList]
  decide +kernel

theorem sample_log_tamper_evident :
    entryPreimage firstEntry.toUnhashed = firstPreimage.toList ∧
      ∃ entries, appendAll sampleSha256 (fun _ => none) [] [firstCall] = .ok entries ∧
        verifyChain sampleSha256 entries = .intact ∧ entries.map (·.sequence) = (List.range 1).map (· + 1) ∧
        ∀ calls', ∃ entries', appendAll sampleSha256 (fun _ => none) [] ([firstCall] ++ calls') = .ok entries' ∧
          entries <+: entries' :=
  ⟨firstEntry_preimage,
    (audit_log_tamper_evident sampleSha256 (fun _ => none) sampleSha256_injective).1 [firstCall] (by simp)⟩

end Sample

end CrashLab.Audit
