import CrashLab.Digest

namespace CrashLab.Provenance

open Digest

open SignatureHash (asBytes hex16)

def provenanceSchemaVersion : UInt32 := 1

structure ProvenanceRecord where
  schema : UInt32
  runId : String
  seedId : UInt64
  engineVersion : String
  environmentFingerprintHash : String
  captureTimestamp : String
  expectedSignature : String
  contentHash : String
  previousHash : Option String
  signature : Option String
deriving DecidableEq, Repr

inductive ProvenanceError where
  | unsupportedSchema (found : UInt32)
  | unsealed
  | contentHashMismatch (expected found : String)
  | missing
  | chainBreak (index : ℕ)
deriving DecidableEq, Repr

namespace ProvenanceRecord

def new (runId : String) (seedId : UInt64) (engineVersion environmentFingerprintHash captureTimestamp
    expectedSignature : String) : ProvenanceRecord where
  schema := provenanceSchemaVersion
  runId
  seedId
  engineVersion
  environmentFingerprintHash
  captureTimestamp
  expectedSignature
  contentHash := ""
  previousHash := none
  signature := none

def canonicalEncoding (record : ProvenanceRecord) : List UInt8 :=
  let out := pushField [] "schema" (toString record.schema)
  let out := pushField out "run_id" record.runId
  let out := pushField out "seed_id" (toString record.seedId)
  let out := pushField out "engine_version" record.engineVersion
  let out := pushField out "environment_fingerprint_hash" record.environmentFingerprintHash
  let out := pushField out "capture_timestamp" record.captureTimestamp
  let out := pushField out "expected_signature" record.expectedSignature
  pushField out "previous_hash" (record.previousHash.getD "")

variable (sha256 : List UInt8 → List UInt8)

def computeContentHash (record : ProvenanceRecord) : String := sha256Hex sha256 record.canonicalEncoding

def sealRecord (record : ProvenanceRecord) : ProvenanceRecord :=
  { record with contentHash := computeContentHash sha256 record }

def verify (record : ProvenanceRecord) : Except ProvenanceError Unit :=
  if record.schema ≠ provenanceSchemaVersion then .error (.unsupportedSchema record.schema)
  else if record.contentHash = "" then .error .unsealed
  else if computeContentHash sha256 record ≠ record.contentHash then
    .error (.contentHashMismatch record.contentHash (computeContentHash sha256 record))
  else .ok ()

def verifyFrom : ℕ → Option String → List ProvenanceRecord → Except ProvenanceError Unit
  | _, _, [] => .ok ()
  | index, previous, record :: records => do
    verify sha256 record
    if record.previousHash ≠ previous then .error (.chainBreak index)
    else verifyFrom (index + 1) (some record.contentHash) records

def verifyChain (records : List ProvenanceRecord) : Except ProvenanceError Unit :=
  verifyFrom sha256 0 none records

variable {sha256}

def covered (record : ProvenanceRecord) : ProvenanceRecord := { record with contentHash := "", signature := none }

theorem verify_ok_iff {record : ProvenanceRecord} :
    verify sha256 record = .ok () ↔
      record.schema = provenanceSchemaVersion ∧ record.contentHash ≠ "" ∧
        record.contentHash = computeContentHash sha256 record := by
  unfold verify
  split_ifs with hschema hempty hhash
  · exact iff_of_false (fun h => nomatch h) (fun h => hschema h.1)
  · exact iff_of_false (fun h => nomatch h) (fun h => h.2.1 hempty)
  · exact iff_of_false (fun h => nomatch h) (fun h => hhash h.2.2.symm)
  · exact iff_of_true rfl ⟨not_not.mp hschema, hempty, (not_not.mp hhash).symm⟩

theorem verifyFrom_cons_ok_iff {index : ℕ} {previous : Option String} {record : ProvenanceRecord}
    {records : List ProvenanceRecord} :
    verifyFrom sha256 index previous (record :: records) = .ok () ↔
      verify sha256 record = .ok () ∧ record.previousHash = previous ∧
        verifyFrom sha256 (index + 1) (some record.contentHash) records = .ok () := by
  rw [verifyFrom]
  cases hverify : verify sha256 record with
  | error e => exact iff_of_false (fun h => nomatch h) (fun h => nomatch h.1)
  | ok u =>
    change (if record.previousHash ≠ previous then _ else _) = Except.ok () ↔ _
    split_ifs with hprevious
    · exact iff_of_false (fun h => nomatch h) (fun h => hprevious h.2.1)
    · exact ⟨fun h => ⟨rfl, not_not.mp hprevious, h⟩, fun h => h.2.2⟩

end ProvenanceRecord

end CrashLab.Provenance

namespace CrashLab.Provenance

open Delimited Digest

open SignatureHash (asBytes)

def recordSep : Char := '\x1e'

def unitSep : Char := '\x1f'

def keyMark (key : String) : List Char := key.toList ++ [unitSep]

def marker (key : String) : List Char := recordSep :: keyMark key

def seedMark (seedId : UInt64) : List Char := keyMark "seed_id" ++ (toString seedId).toList

def seedMarker (seedId : UInt64) : List Char := recordSep :: seedMark seedId ++ marker "engine_version"

def keyed (key value : String) : List Char := marker key ++ value.toList

theorem asBytes_eq (s : String) : asBytes s = s.toList.flatMap String.utf8EncodeChar := by
  rw [← asBytes_ofList, String.ofList_toList]

theorem utf8_recordSep : String.utf8EncodeChar recordSep = [fieldSep] := rfl

theorem utf8_unitSep : String.utf8EncodeChar unitSep = [pairSep] := rfl

theorem recordSep_not_mem {s : String} (h : fieldSep ∉ asBytes s) : recordSep ∉ s.toList := by
  intro hmem
  apply h
  rw [asBytes_eq, List.mem_flatMap]
  exact ⟨recordSep, hmem, by rw [utf8_recordSep]; exact List.mem_singleton_self _⟩

def opens (key : String) (text : List Char) : Prop := marker key <+: text

def opensSeed (text : List Char) : Prop := ∃ n, seedMarker n <+: text

def Clear (key left right : String) : Prop :=
  ¬marker key <:+: left.toList ∧ ¬marker key <:+: right.toList

theorem keyed_append (key value : String) (rest : List Char) :
    keyed key value ++ rest = marker key ++ (value.toList ++ rest) := List.append_assoc _ _ _

theorem opens_keyed (key value : String) (rest : List Char) : opens key (keyed key value ++ rest) := by
  rw [opens, keyed_append]
  exact List.prefix_append _ _

theorem keyed_ne_nil (key value : String) : keyed key value ≠ [] := List.cons_ne_nil _ _

theorem keyed_head (key value : String) (rest : List Char) :
    ∀ c ∈ (keyed key value ++ rest).head?, c = recordSep := by
  intro c hc
  exact (Option.mem_some.mp hc).symm

theorem keyed_inside {key value : String} {starts : List (List Char → Prop)} {rest : List Char}
    (hkey : recordSep ∉ keyMark key) (hown : ¬marker key <:+: value.toList)
    (hrest : ∀ c ∈ rest.head?, c = recordSep)
    (hnext : ∀ next ∈ starts.head?, ∃ other, next = opens other ∧ recordSep ∉ keyMark other ∧
      ¬marker other <:+: value.toList) :
    ∀ before after, keyed key value = before ++ after → before ≠ [] → after ≠ [] →
      ¬opens key (after ++ rest) ∧ ∀ next ∈ starts.head?, ¬next (after ++ rest) := by
  intro before after hblock hbefore hafter
  have hinside : ∀ {other}, recordSep ∉ keyMark other → ¬marker other <:+: value.toList →
      ¬opens other (after ++ rest) := by
    intro other hother hclear h
    exact hclear (infix_of_inside hkey hblock hbefore (prefix_stays_inside hother hafter hrest h))
  refine ⟨hinside hkey hown, ?_⟩
  intro next hmem
  obtain ⟨other, rfl, hother, hclear⟩ := hnext next hmem
  exact hinside hother hclear

namespace ProvenanceRecord

def previousText (r : ProvenanceRecord) : String := r.previousHash.getD ""

def seedBlock (r : ProvenanceRecord) : List Char := seedMarker r.seedId ++ r.engineVersion.toList

def front (r : ProvenanceRecord) : List (List Char) :=
  [r.seedBlock, keyed "environment_fingerprint_hash" r.environmentFingerprintHash,
    keyed "capture_timestamp" r.captureTimestamp, keyed "expected_signature" r.expectedSignature]

def canonicalChars (r : ProvenanceRecord) : List Char :=
  keyMark "schema" ++ (toString r.schema).toList ++ marker "run_id" ++
    (r.runId.toList ++ r.front.flatten ++ keyed "previous_hash" r.previousText) ++ [recordSep]

theorem canonicalEncoding_eq (r : ProvenanceRecord) :
    r.canonicalEncoding = asBytes (String.ofList r.canonicalChars) := by
  rw [asBytes_ofList]
  simp only [canonicalEncoding, pushField, canonicalChars, front, seedBlock, keyed, previousText, seedMarker,
    seedMark, marker, keyMark, asBytes_eq, List.flatten_cons, List.flatten_nil, List.flatMap_append,
    List.flatMap_cons, List.flatMap_nil, utf8_recordSep, utf8_unitSep, List.append_assoc, List.nil_append,
    List.append_nil, List.cons_append]

theorem contentHash_eq_iff {sha256 : List UInt8 → List UInt8} (hsha : Function.Injective sha256)
    {r r' : ProvenanceRecord} :
    computeContentHash sha256 r = computeContentHash sha256 r' ↔ r.canonicalChars = r'.canonicalChars := by
  unfold computeContentHash
  rw [canonicalEncoding_eq, canonicalEncoding_eq]
  constructor
  · intro h
    exact String.ofList_injective (asBytes_injective (sha256Hex_injective hsha h))
  · intro h
    rw [h]

/-- No text before the parent link holds the opening of a field that one of its neighbours starts with. -/
structure Unambiguous (r : ProvenanceRecord) : Prop where
  seed : ∀ n, ¬seedMarker n <:+: r.runId.toList ∧ ¬seedMarker n <:+: r.engineVersion.toList
  environment : Clear "environment_fingerprint_hash" r.engineVersion r.environmentFingerprintHash
  timestamp : Clear "capture_timestamp" r.environmentFingerprintHash r.captureTimestamp
  signature : Clear "expected_signature" r.captureTimestamp r.expectedSignature

theorem unambiguous_of_plain {r : ProvenanceRecord} (hrun : recordSep ∉ r.runId.toList)
    (hengine : recordSep ∉ r.engineVersion.toList) (henv : recordSep ∉ r.environmentFingerprintHash.toList)
    (htime : recordSep ∉ r.captureTimestamp.toList) (hsig : recordSep ∉ r.expectedSignature.toList) :
    Unambiguous r := by
  have hwithin : ∀ {m text : List Char}, recordSep ∉ text → ¬(recordSep :: m) <:+: text := by
    intro m text htext h
    exact htext (h.subset List.mem_cons_self)
  exact ⟨fun n => ⟨hwithin hrun, hwithin hengine⟩, ⟨hwithin hengine, hwithin henv⟩, ⟨hwithin henv, hwithin htime⟩,
    ⟨hwithin htime, hwithin hsig⟩⟩

structure LinkClear (r : ProvenanceRecord) : Prop where
  present : r.previousText ≠ ""
  previous : Clear "previous_hash" r.expectedSignature r.previousText

def frontStarts : List (List Char → Prop) :=
  [opensSeed, opens "environment_fingerprint_hash", opens "capture_timestamp", opens "expected_signature"]

theorem front_framed (r : ProvenanceRecord) {starts : List (List Char → Prop)} {blocks : List (List Char)}
    (h : Framed starts blocks) : Framed (frontStarts ++ starts) (r.front ++ blocks) := by
  refine ⟨List.cons_ne_nil _ _, ⟨r.seedId, ?_⟩, keyed_ne_nil _ _, opens_keyed _ _ _, keyed_ne_nil _ _,
    opens_keyed _ _ _, keyed_ne_nil _ _, opens_keyed _ _ _, h⟩
  rw [seedBlock, List.append_assoc]
  exact List.prefix_append _ _

theorem seedMark_clear (n : UInt64) : recordSep ∉ seedMark n := by
  rw [seedMark, List.mem_append, not_or]
  exact ⟨by decide, recordSep_not_mem (fieldSep_not_mem_toString n.toNat)⟩

theorem seedBlock_eq (r : ProvenanceRecord) : r.seedBlock =
    recordSep :: (seedMark r.seedId ++ recordSep :: (keyMark "engine_version" ++ r.engineVersion.toList)) := by
  rw [seedBlock, seedMarker, marker, List.append_assoc]
  rfl

theorem seedBlock_inside {r : ProvenanceRecord} (hclear : Unambiguous r) {before after rest : List Char}
    (hrest : opens "environment_fingerprint_hash" rest) (hblock : r.seedBlock = before ++ after)
    (hbefore : before ≠ []) (hafter : after ≠ []) :
    ¬opensSeed (after ++ rest) ∧ ¬opens "environment_fingerprint_hash" (after ++ rest) := by
  rw [seedBlock_eq] at hblock
  have hhead : ∀ c ∈ rest.head?, c = recordSep := by
    obtain ⟨tail, rfl⟩ := hrest
    intro c hc
    exact (Option.mem_some.mp hc).symm
  constructor
  · rintro ⟨n, hn⟩
    have hnot : ¬(recordSep :: keyMark "engine_version") <+: rest := by
      obtain ⟨tail, rfl⟩ := hrest
      rintro ⟨more, hmore⟩
      have hthird := congrArg (fun s : List Char => s[3]?) hmore
      change some 'g' = some 'v' at hthird
      exact absurd hthird (by decide)
    have hinside := prefix_pair_stays_inside (seedMark_clear n) (by decide) hafter hhead hnot hn
    apply (hclear.seed n).2
    apply infix_past_mark (by decide) _ (infix_of_inside (seedMark_clear r.seedId) hblock hbefore hinside)
    rintro ⟨more, hmore⟩
    exact absurd (List.cons.inj hmore).1 (by decide)
  · intro h
    have hinside := prefix_stays_inside (by decide) hafter hhead h
    apply hclear.environment.1
    apply infix_past_mark (by decide) _ (infix_of_inside (seedMark_clear r.seedId) hblock hbefore hinside)
    rintro ⟨more, hmore⟩
    have hthird := congrArg (fun s : List Char => s[2]?) hmore
    change some 'v' = some 'g' at hthird
    exact absurd hthird (by decide)

theorem front_quiet {r : ProvenanceRecord} (hclear : Unambiguous r) {starts : List (List Char → Prop)}
    {blocks : List (List Char)} (hhead : ∀ c ∈ blocks.flatten.head?, c = recordSep)
    (hnext : ∀ next ∈ starts.head?, ∃ key, next = opens key ∧ recordSep ∉ keyMark key ∧
      ¬marker key <:+: r.expectedSignature.toList)
    (hquiet : Quiet starts blocks) : Quiet (frontStarts ++ starts) (r.front ++ blocks) := by
  refine ⟨?_, ?_, ?_, ?_, hquiet⟩
  · intro before after hblock hbefore hafter
    obtain ⟨hseed, hnot⟩ := seedBlock_inside hclear (opens_keyed _ _ _) hblock hbefore hafter
    refine ⟨hseed, ?_⟩
    intro next hmem
    rw [← Option.mem_some.mp hmem]
    exact hnot
  · apply keyed_inside (by decide) hclear.environment.2 (keyed_head _ _ _)
    intro next hmem
    exact ⟨"capture_timestamp", (Option.mem_some.mp hmem).symm, by decide, hclear.timestamp.1⟩
  · apply keyed_inside (by decide) hclear.timestamp.2 (keyed_head _ _ _)
    intro next hmem
    exact ⟨"expected_signature", (Option.mem_some.mp hmem).symm, by decide, hclear.signature.1⟩
  · exact keyed_inside (by decide) hclear.signature.2 hhead hnext

theorem canonicalChars_eq_iff {r r' : ProvenanceRecord} :
    r.canonicalChars = r'.canonicalChars ↔ r.schema = r'.schema ∧
      r.runId.toList ++ (r.front ++ [keyed "previous_hash" r.previousText]).flatten =
        r'.runId.toList ++ (r'.front ++ [keyed "previous_hash" r'.previousText]).flatten := by
  constructor
  · intro h
    unfold canonicalChars at h
    have hchars := List.append_cancel_right h
    rw [List.append_assoc, List.append_assoc, List.append_assoc, List.append_assoc] at hchars
    have hkey := List.append_cancel_left hchars
    have hclear : ∀ n : UInt32, recordSep ∉ (toString n).toList :=
      fun n => recordSep_not_mem (fieldSep_not_mem_toString n.toNat)
    obtain ⟨hschema, hrest⟩ := cut_unique_of_not_mem (hclear r.schema) (hclear r'.schema) hkey
    have hbody := List.append_cancel_left hrest
    refine ⟨UInt32.toNat_inj.mp (toString_injective (String.toList_injective hschema)), ?_⟩
    simpa only [List.flatten_append, List.flatten_singleton, List.append_assoc] using hbody
  · rintro ⟨hschema, h⟩
    simp only [List.flatten_append, List.flatten_singleton, ← List.append_assoc] at h
    rw [canonicalChars, canonicalChars, hschema, h]

theorem runId_length_le {r r' : ProvenanceRecord} {rest rest' : List Char}
    (hclear : ∀ n, ¬seedMarker n <:+: r.runId.toList)
    (h : r.runId.toList ++ (r.seedBlock ++ rest) = r'.runId.toList ++ (r'.seedBlock ++ rest')) :
    r.runId.toList.length ≤ r'.runId.toList.length := by
  by_contra hlt
  obtain ⟨w, hw, hblock⟩ : ∃ w, r.runId.toList = r'.runId.toList ++ w ∧
      r'.seedBlock ++ rest' = w ++ (r.seedBlock ++ rest) := by
    rcases List.append_eq_append_iff.mp h with ⟨w, hw, _⟩ | ⟨w, hw, hblock⟩
    · have := congrArg List.length hw
      rw [List.length_append] at this
      omega
    · exact ⟨w, hw, hblock⟩
  have hwne : w ≠ [] := by
    rintro rfl
    rw [List.append_nil] at hw
    rw [hw] at hlt
    exact hlt le_rfl
  have hstarts : seedMarker r'.seedId <+: w ++ (r.seedBlock ++ rest) := by
    rw [← hblock, seedBlock, List.append_assoc]
    exact List.prefix_append _ _
  have hhead : ∀ c ∈ (r.seedBlock ++ rest).head?, c = recordSep := by
    intro c hc
    exact (Option.mem_some.mp hc).symm
  have hnot : ¬(recordSep :: keyMark "engine_version") <+: r.seedBlock ++ rest := by
    rintro ⟨more, hmore⟩
    exact absurd (List.cons.inj (List.cons.inj hmore).2).1 (by decide)
  obtain ⟨more, hmore⟩ := prefix_pair_stays_inside (seedMark_clear _) (by decide) hwne hhead hnot hstarts
  apply hclear r'.seedId
  exact ⟨r'.runId.toList, more, by rw [hw, List.append_assoc, ← hmore]; rfl⟩

theorem covered_eq {r r' : ProvenanceRecord} (hschema : r.schema = r'.schema)
    (hrun : r.runId.toList = r'.runId.toList) (hfront : r.front = r'.front)
    (hprevious : r.previousHash = r'.previousHash) : covered r = covered r' := by
  obtain ⟨hseed, henv, htime, hsig, _⟩ : r.seedBlock = r'.seedBlock ∧ _ ∧ _ ∧ _ ∧ _ := by
    simpa only [front, List.cons.injEq] using hfront
  rw [seedBlock_eq, seedBlock_eq] at hseed
  obtain ⟨hmark, hengine⟩ := cut_unique_of_not_mem (seedMark_clear r.seedId) (seedMark_clear r'.seedId)
    (List.cons.inj hseed).2
  have hid : r.seedId = r'.seedId := UInt64.toNat_inj.mp (toString_injective
    (String.toList_injective (List.append_cancel_left hmark)))
  simp only [covered, hschema, String.toList_injective hrun, hid,
    String.toList_injective (List.append_cancel_left hengine),
    String.toList_injective (List.append_cancel_left henv),
    String.toList_injective (List.append_cancel_left htime),
    String.toList_injective (List.append_cancel_left hsig), hprevious]

theorem front_binds {r r' : ProvenanceRecord} (hclear : Unambiguous r) {starts : List (List Char → Prop)}
    {blocks blocks' : List (List Char)} (hframed : Framed starts blocks) (hframed' : Framed starts blocks')
    (hhead : ∀ c ∈ blocks.flatten.head?, c = recordSep)
    (hnext : ∀ next ∈ starts.head?, ∃ key, next = opens key ∧ recordSep ∉ keyMark key ∧
      ¬marker key <:+: r.expectedSignature.toList)
    (hquiet : Quiet starts blocks)
    (h : r.runId.toList ++ (r.front ++ blocks).flatten = r'.runId.toList ++ (r'.front ++ blocks').flatten) :
    r.runId.toList = r'.runId.toList ∧ r.front = r'.front ∧ blocks = blocks' := by
  have hlen := runId_length_le (fun n => (hclear.seed n).1) h
  obtain ⟨hrun, hblocks⟩ := blocks_unique (front_framed r hframed) (front_framed r' hframed')
    (front_quiet hclear hhead hnext hquiet) hlen h
  obtain ⟨hfront, htail⟩ := List.append_inj hblocks rfl
  exact ⟨hrun, hfront, htail⟩

theorem previousHash_eq {r r' : ProvenanceRecord} (hpresent : r.previousText ≠ "")
    (h : r.previousText = r'.previousText) : r.previousHash = r'.previousHash := by
  unfold previousText at hpresent h
  cases hr : r.previousHash with
  | none =>
    rw [hr] at hpresent
    exact absurd rfl hpresent
  | some hash =>
    cases hr' : r'.previousHash with
    | none =>
      rw [hr'] at h
      exact absurd h hpresent
    | some hash' =>
      rw [hr, hr'] at h
      exact congrArg some h

theorem covered_eq_of_clear {r r' : ProvenanceRecord} (hclear : Unambiguous r) (hlink : LinkClear r)
    (h : r.canonicalChars = r'.canonicalChars) : covered r = covered r' := by
  obtain ⟨hschema, hbody⟩ := canonicalChars_eq_iff.mp h
  have hframed : ∀ text, Framed [opens "previous_hash"] [keyed "previous_hash" text] := by
    intro text
    exact ⟨keyed_ne_nil _ _, opens_keyed _ _ _, trivial⟩
  have hquiet : Quiet [opens "previous_hash"] [keyed "previous_hash" r.previousText] := by
    refine ⟨?_, trivial⟩
    apply keyed_inside (by decide) hlink.previous.2
    · intro c hc
      exact nomatch hc
    · intro next hmem
      exact nomatch hmem
  obtain ⟨hrun, hfront, hprevious⟩ := front_binds hclear (hframed _) (hframed _)
    (by rw [List.flatten_singleton, ← List.append_nil (keyed _ _)]; exact keyed_head _ _ _)
    (fun next hmem => ⟨"previous_hash", (Option.mem_some.mp hmem).symm, by decide, hlink.previous.1⟩)
    hquiet hbody
  apply covered_eq hschema hrun hfront
  apply previousHash_eq hlink.present
  exact String.toList_injective (List.append_cancel_left (List.singleton_inj.mp hprevious))

theorem front_eq_of_plain {r r' : ProvenanceRecord} (hclear : Unambiguous r)
    (hplain : recordSep ∉ r.previousText.toList) (hplain' : recordSep ∉ r'.previousText.toList)
    (h : r.canonicalChars = r'.canonicalChars) :
    r.schema = r'.schema ∧ r.runId.toList = r'.runId.toList ∧ r.front = r'.front ∧
      r.previousText = r'.previousText := by
  obtain ⟨hschema, hbody⟩ := canonicalChars_eq_iff.mp h
  simp only [List.flatten_append, List.flatten_singleton, ← List.append_assoc] at hbody
  have hlast : ∀ text : String, recordSep ∉ text.toList → recordSep ∉ keyMark "previous_hash" ++ text.toList := by
    intro text htext
    rw [List.mem_append, not_or]
    exact ⟨by decide, htext⟩
  obtain ⟨hfront, hprevious⟩ := last_cut_unique (hlast _ hplain) (hlast _ hplain') hbody
  have hbinds := @front_binds r r' hclear [] [] [] trivial trivial
    (fun c hc => nomatch hc) (fun next hmem => nomatch hmem) trivial
    (by rw [List.append_nil, List.append_nil]; exact hfront)
  exact ⟨hschema, hbinds.1, hbinds.2.1, String.toList_injective (List.append_cancel_left hprevious)⟩

theorem ofList_ne {chars : List Char} {text : String} (h : chars ≠ text.toList) :
    String.ofList chars ≠ text := by
  rintro rfl
  exact h String.toList_ofList.symm

def Twin (r r' : ProvenanceRecord) : Prop :=
  r'.canonicalChars = r.canonicalChars ∧ covered r' ≠ covered r

theorem exists_seed_twin {r : ProvenanceRecord} {n : UInt64}
    (h : seedMarker n <:+: r.runId.toList ∨ seedMarker n <:+: r.engineVersion.toList) :
    ∃ run engine, Twin r { r with runId := run, seedId := n, engineVersion := engine } := by
  have hmarker : ∀ m, seedMarker m ≠ [] := fun _ => List.cons_ne_nil _ _
  obtain ⟨a, b, hne, heq⟩ := exists_recut (hmarker r.seedId) (hmarker n) h
  refine ⟨String.ofList a, String.ofList b, ?_, ?_⟩
  · have hseam : a ++ (seedMarker n ++ b) = r.runId.toList ++ (seedMarker r.seedId ++ r.engineVersion.toList) := by
      rw [← List.append_assoc, heq, List.append_assoc]
    simp only [canonicalChars, front, seedBlock, previousText, List.flatten_cons, String.toList_ofList]
    rw [← List.append_assoc a, hseam, List.append_assoc r.runId.toList]
  · intro hcovered
    exact ofList_ne hne (congrArg ProvenanceRecord.runId hcovered)

theorem exists_text_twin {key left right : String} (h : ¬Clear key left right) :
    ∃ left' right', left' ≠ left ∧ ∀ rest, left'.toList ++ (keyed key right' ++ rest) =
      left.toList ++ (keyed key right ++ rest) := by
  have hinside : marker key <:+: left.toList ∨ marker key <:+: right.toList := by
    rw [Clear, not_and_or, not_not, not_not] at h
    exact h
  have hmarker : marker key ≠ [] := List.cons_ne_nil _ _
  obtain ⟨a, b, hne, heq⟩ := exists_recut hmarker hmarker hinside
  refine ⟨String.ofList a, String.ofList b, ofList_ne hne, ?_⟩
  intro rest
  rw [keyed_append, keyed_append, String.toList_ofList, String.toList_ofList, ← List.append_assoc (marker key),
    ← List.append_assoc (marker key), ← List.append_assoc a, ← List.append_assoc left.toList,
    ← List.append_assoc a, ← List.append_assoc left.toList, heq]

theorem exists_environment_twin {r : ProvenanceRecord}
    (h : ¬Clear "environment_fingerprint_hash" r.engineVersion r.environmentFingerprintHash) :
    ∃ engine env, Twin r { r with engineVersion := engine, environmentFingerprintHash := env } := by
  obtain ⟨engine, env, hne, hseam⟩ := exists_text_twin h
  refine ⟨engine, env, ?_, ?_⟩
  · simp only [canonicalChars, front, seedBlock, previousText, List.flatten_cons, List.append_assoc, hseam]
  · intro hcovered
    exact hne (congrArg ProvenanceRecord.engineVersion hcovered)

theorem exists_timestamp_twin {r : ProvenanceRecord}
    (h : ¬Clear "capture_timestamp" r.environmentFingerprintHash r.captureTimestamp) :
    ∃ env time, Twin r { r with environmentFingerprintHash := env, captureTimestamp := time } := by
  obtain ⟨env, time, hne, hseam⟩ := exists_text_twin h
  refine ⟨env, time, ?_, ?_⟩
  · simp only [canonicalChars, front, seedBlock, previousText, List.flatten_cons, List.append_assoc,
      keyed_append "environment_fingerprint_hash", hseam]
  · intro hcovered
    exact hne (congrArg ProvenanceRecord.environmentFingerprintHash hcovered)

theorem exists_signature_twin {r : ProvenanceRecord}
    (h : ¬Clear "expected_signature" r.captureTimestamp r.expectedSignature) :
    ∃ time sig, Twin r { r with captureTimestamp := time, expectedSignature := sig } := by
  obtain ⟨time, sig, hne, hseam⟩ := exists_text_twin h
  refine ⟨time, sig, ?_, ?_⟩
  · simp only [canonicalChars, front, seedBlock, previousText, List.flatten_cons, List.append_assoc,
      keyed_append "capture_timestamp", hseam]
  · intro hcovered
    exact hne (congrArg ProvenanceRecord.captureTimestamp hcovered)

theorem exists_previous_twin {r : ProvenanceRecord} (h : ¬LinkClear r) : ∃ r', Twin r r' := by
  by_cases hpresent : r.previousText = ""
  · cases hprevious : r.previousHash with
    | none =>
      refine ⟨{ r with previousHash := some "" }, ?_, ?_⟩
      · simp only [canonicalChars, front, seedBlock, previousText, hprevious, Option.getD_none, Option.getD_some]
      · intro hcovered
        exact nomatch (congrArg ProvenanceRecord.previousHash hcovered).trans hprevious
    | some hash =>
      have hhash : hash = "" := by
        rw [previousText, hprevious] at hpresent
        exact hpresent
      refine ⟨{ r with previousHash := none }, ?_, ?_⟩
      · simp only [canonicalChars, front, seedBlock, previousText, hprevious, Option.getD_none, Option.getD_some,
          hhash]
      · intro hcovered
        exact nomatch (congrArg ProvenanceRecord.previousHash hcovered).trans hprevious
  · have hclear : ¬Clear "previous_hash" r.expectedSignature r.previousText := fun hclear => h ⟨hpresent, hclear⟩
    obtain ⟨sig, previous, hne, hseam⟩ := exists_text_twin hclear
    refine ⟨{ r with expectedSignature := sig, previousHash := some previous }, ?_, ?_⟩
    · simp only [canonicalChars, front, seedBlock, previousText, List.flatten_cons, List.flatten_nil,
        List.append_assoc, keyed_append "expected_signature", Option.getD_some, List.nil_append, hseam]
    · intro hcovered
      exact hne (congrArg ProvenanceRecord.expectedSignature hcovered)

theorem exists_twin {r : ProvenanceRecord} (h : ¬Unambiguous r) :
    ∃ r', Twin r r' ∧ r'.schema = r.schema ∧ r'.previousHash = r.previousHash := by
  by_contra hnone
  apply h
  refine ⟨?_, ?_, ?_, ?_⟩
  · intro n
    rw [← not_or]
    intro hn
    obtain ⟨run, engine, htwin⟩ := exists_seed_twin hn
    exact hnone ⟨_, htwin, rfl, rfl⟩
  · by_contra hclear
    obtain ⟨engine, env, htwin⟩ := exists_environment_twin hclear
    exact hnone ⟨_, htwin, rfl, rfl⟩
  · by_contra hclear
    obtain ⟨env, time, htwin⟩ := exists_timestamp_twin hclear
    exact hnone ⟨_, htwin, rfl, rfl⟩
  · by_contra hclear
    obtain ⟨time, sig, htwin⟩ := exists_signature_twin hclear
    exact hnone ⟨_, htwin, rfl, rfl⟩

end ProvenanceRecord

end CrashLab.Provenance
