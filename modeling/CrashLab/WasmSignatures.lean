import CrashLab.WasmFormat
import CrashLab.WasmTotality

namespace CrashLab.WasmParse

open CursorWalks Walk

section Codes

theorem lebBits_eq {byte : UInt8} {shift : ℕ} (h : shift < 32) :
    lebBits byte shift = BitVec.ofNat 32 ((byte.toNat % 128) <<< shift) := by
  apply BitVec.eq_of_toNat_eq
  have hmask : (byte &&& 0x7f).toNat = byte.toNat % 128 := by
    rw [UInt8.toNat_and]
    exact Nat.and_two_pow_sub_one_eq_mod byte.toNat 7
  rw [lebBits, Nat.mod_eq_of_lt h, BitVec.toNat_shiftLeft, BitVec.toNat_setWidth, BitVec.toNat_ofNat]
  change ((byte &&& 0x7f).toNat % 2 ^ 32) <<< shift % 2 ^ 32 = _
  rw [hmask, Nat.mod_eq_of_lt (show byte.toNat % 128 < 2 ^ 32 by omega)]

theorem continues_iff {byte : UInt8} : continues byte = true ↔ 128 ≤ byte.toNat := by
  have hall : ∀ n : Fin 256, continues (UInt8.ofNat n) = decide (128 ≤ n.val) := by decide +kernel
  have hbyte := hall ⟨byte.toNat, byte.toNat_lt⟩
  rw [UInt8.ofNat_toNat] at hbyte
  rw [hbyte, decide_eq_true_iff]

theorem low_or_high {low : ℕ} (n shift : ℕ) (h : low < 2 ^ 7) :
    low <<< shift ||| n <<< (shift + 7) = (low + 128 * n) <<< shift := by
  have hor := Nat.shiftLeft_add_eq_or_of_lt h n
  have hsum : n <<< 7 + low = low + 128 * n := by
    rw [Nat.shiftLeft_eq]
    omega
  rw [Nat.add_comm shift 7, Nat.shiftLeft_add, ← Nat.shiftLeft_or_distrib, Nat.or_comm, ← hor, hsum]

theorem fieldFrom_uleb {n shift : ℕ} {bytes : List UInt8} (h : WasmFormat.Uleb n bytes)
    (hshift : shift + 7 * bytes.length ≤ 35) (rest : List UInt8) :
    fieldFrom shift (bytes ++ rest) = (BitVec.ofNat 32 (n <<< shift), rest) := by
  induction h generalizing shift with
  | @last byte low =>
    rw [List.length_singleton] at hshift
    have hlast : continues byte = false := by
      rw [Bool.eq_false_iff, ne_eq, continues_iff]
      omega
    rw [List.singleton_append, fieldFrom, hlast, lebBits_eq (by omega), Nat.mod_eq_of_lt low]
    rfl
  | @more byte n bytes high behind ih =>
    rw [List.length_cons] at hshift
    have hmore : byte.toNat < 256 := byte.toNat_lt
    have hpos := behind.pos
    have hrest := ih (show shift + 7 + 7 * bytes.length ≤ 35 by omega)
    rw [List.cons_append, fieldFrom, if_pos (continues_iff.mpr high), hrest, lebBits_eq (show shift < 32 by omega)]
    dsimp only
    rw [← BitVec.ofNat_or]
    rw [show byte.toNat % 128 = byte.toNat - 128 by omega, low_or_high n shift (show byte.toNat - 128 < 2 ^ 7 by omega)]

theorem field_u32 {n : ℕ} {bytes : List UInt8} (h : WasmFormat.U32 n bytes) (rest : List UInt8) :
    field (bytes ++ rest) = (BitVec.ofNat 32 n, rest) := by
  have hshort := h.short
  rw [field, fieldFrom_uleb h.code (by omega), Nat.shiftLeft_zero]

end Codes

section Vectors

variable (replaceInvalid : List UInt8 → List Char) {data bytes rest : List UInt8} {offset : ℤ}

theorem readLeb_u32 {n : ℕ} (h : WasmFormat.U32 n bytes) (hat : At data (bytes ++ rest) offset) :
    ∃ leb, (readLeb stopping data offset).outcome = .done leb ∧ leb.value = BitVec.ofNat 32 n ∧
      At data rest leb.offset := by
  obtain ⟨-, leb, hdone, hvalue, hrest⟩ := readLeb_stopping hat
  rw [field_u32 h rest] at hvalue hrest
  exact ⟨leb, hdone, hvalue, hrest⟩

theorem toInt_ofNat {n : ℕ} (h : n < 2 ^ 31) : (BitVec.ofNat 32 n).toInt = n := by
  have hvalue : (BitVec.ofNat 32 n).toNat = n := by
    rw [BitVec.toNat_ofNat]
    exact Nat.mod_eq_of_lt (by omega)
  rw [toInt_of_lt (by omega), hvalue]

theorem readCount {n : ℕ} (h : WasmFormat.U32 n bytes) (hat : At data (bytes ++ rest) offset) (hn : n < 2 ^ 31) :
    ∃ leb, (readLeb stopping data offset).outcome = .done leb ∧ leb.value.toInt = n ∧ At data rest leb.offset := by
  obtain ⟨leb, hdone, hvalue, hrest⟩ := readLeb_u32 h hat
  exact ⟨leb, hdone, by rw [hvalue, toInt_ofNat hn], hrest⟩

theorem valtypeLoop_bytes (hat : At data (bytes ++ rest) offset) :
    ∃ offset', (valtypeLoop data bytes.length offset).outcome = .done (bytes.map some, offset') ∧
      At data rest offset' := by
  induction bytes generalizing offset with
  | nil => exact ⟨offset, rfl, hat⟩
  | cons valtype bytes ih =>
    rw [List.cons_append] at hat
    obtain ⟨offset', hdone, hrest⟩ := ih hat.next
    rw [List.length_cons, valtypeLoop, if_neg fun h => List.cons_ne_nil _ _ (hat.at_end.mp h),
      outcome_bind_of_done hat.outcome_readNext]
    dsimp only
    rw [outcome_bind_of_done hdone]
    exact ⟨offset', rfl, hrest⟩

theorem readValtypes_vector {valtypes : List UInt8} (h : WasmFormat.Vector WasmFormat.Byte valtypes bytes)
    (hat : At data (bytes ++ rest) offset) (hsize : bytes.length < 2 ^ 31) :
    ∃ offset', (readValtypes data offset).outcome = .done (valtypes.map some, offset') ∧ At data rest offset' := by
  have hlength := h.length_lt WasmFormat.Byte.pos
  obtain ⟨count, items, rfl, hcount, hitems⟩ := h
  have hbytes := hitems.bytes_eq
  subst hbytes
  rw [List.append_assoc] at hat
  obtain ⟨leb, hdone, hvalue, hrest⟩ := readCount hcount hat (by omega)
  obtain ⟨offset', hloop, hbehind⟩ := valtypeLoop_bytes hrest
  rw [readValtypes, outcome_bind_of_done hdone, hvalue, Int.toNat_natCast]
  exact ⟨offset', hloop, hbehind⟩

def FuncType.ofSignature (signature : WasmFormat.Signature) : FuncType where
  params := signature.params.map some
  results := signature.results.map some

theorem typeLoop_items {types : List WasmFormat.Signature} (h : WasmFormat.Items WasmFormat.SignatureCode types bytes)
    (hat : At data (bytes ++ rest) offset) (hsize : data.length < 2 ^ 31) :
    (typeLoop data types.length offset).outcome = .done (types.map FuncType.ofSignature) := by
  induction h generalizing offset with
  | nil => rfl
  | @cons signature types bytes later head _ ih =>
    obtain ⟨hparams, hresults⟩ := head
    rename_i params results
    have hlength := hat.add_length
    simp only [List.cons_append, List.append_assoc, List.length_cons, List.length_append] at hat hlength
    obtain ⟨offset₁, hparamsdone, hat₁⟩ := readValtypes_vector hparams hat.next (by have := hat.nonneg; omega)
    obtain ⟨offset₂, hresultsdone, hat₂⟩ := readValtypes_vector hresults hat₁ (by have := hat.nonneg; omega)
    rw [List.length_cons, typeLoop, if_neg fun h => List.cons_ne_nil _ _ (hat.at_end.mp h),
      outcome_bind_of_done (outcome_advance _ _), outcome_bind_of_done hparamsdone]
    dsimp only
    rw [outcome_bind_of_done hresultsdone]
    dsimp only
    rw [outcome_bind_of_done (ih hat₂)]
    rfl

theorem parseTypeSection_vector {types : List WasmFormat.Signature}
    (h : WasmFormat.Vector WasmFormat.SignatureCode types data) (hsize : data.length < 2 ^ 31) :
    (parseTypeSection data).outcome = .done (types.map FuncType.ofSignature) := by
  have hlength := h.length_lt WasmFormat.SignatureCode.pos
  obtain ⟨count, items, rfl, hcount, hitems⟩ := h
  obtain ⟨leb, hdone, hvalue, hrest⟩ := readCount hcount (At.start _) (by omega)
  rw [parseTypeSection, outcome_bind_of_done hdone, hvalue, Int.toNat_natCast]
  have hitemsat : At (count ++ items) (items ++ []) leb.offset := by
    rw [List.append_nil]
    exact hrest
  exact typeLoop_items hitems hitemsat hsize

def ExportEntry.ofExport (entry : WasmFormat.Export) : ExportEntry where
  name := decodeText replaceInvalid entry.name
  kind := some entry.kind
  index := (BitVec.ofNat 32 entry.index).toInt

theorem exportLoop_items {exports : List WasmFormat.Export} (h : WasmFormat.Items WasmFormat.ExportCode exports bytes)
    (hat : At data (bytes ++ rest) offset) (hsize : data.length < 2 ^ 31) :
    (exportLoop replaceInvalid data exports.length offset).outcome =
      .done (exports.map (ExportEntry.ofExport replaceInvalid)) := by
  induction h generalizing offset with
  | nil => rfl
  | @cons entry exports bytes later head _ ih =>
    obtain ⟨hname, hkind, hindex⟩ := head
    rename_i name index
    have hnamelength := hname.length_lt WasmFormat.Byte.pos
    obtain ⟨count, items, rfl, hcount, hitems⟩ := hname
    have hitemsbytes := hitems.bytes_eq
    subst hitemsbytes
    have hlength := hat.add_length
    have hnonneg := hat.nonneg
    simp only [List.cons_append, List.append_assoc, List.length_cons, List.length_append] at hat hlength hnamelength
    obtain ⟨nameLen, hdone, hvalue, hat₁⟩ := readCount hcount hat (by omega)
    have hlength₁ := hat₁.add_length
    simp only [List.length_cons, List.length_append] at hlength₁
    have hat₂ := hat₁.advance (n := entry.name.length) (by simp)
    rw [List.drop_left] at hat₂
    have hslice := hat₁.slice_eq (n := entry.name.length)
    rw [List.take_left] at hslice
    obtain ⟨leb, hleb, hindexvalue, hat₃⟩ := readLeb_u32 hindex hat₂.next
    rw [List.length_cons, exportLoop, outcome_bind_of_done hdone, hvalue,
      if_neg (show ¬(data.length : ℤ) < nameLen.offset + entry.name.length by omega), hslice,
      outcome_bind_of_done (outcome_advance _ _), if_neg fun h => List.cons_ne_nil _ _ (hat₂.at_end.mp h),
      outcome_bind_of_done hat₂.outcome_readNext]
    dsimp only
    rw [outcome_bind_of_done hleb, outcome_bind_of_done (ih hat₃), hindexvalue]
    rfl

theorem parseExportSection_vector {exports : List WasmFormat.Export}
    (h : WasmFormat.Vector WasmFormat.ExportCode exports data) (hsize : data.length < 2 ^ 31) :
    (parseExportSection replaceInvalid data).outcome =
      .done (exports.map (ExportEntry.ofExport replaceInvalid)) := by
  have hlength := h.length_lt WasmFormat.ExportCode.pos
  obtain ⟨count, items, rfl, hcount, hitems⟩ := h
  obtain ⟨leb, hdone, hvalue, hrest⟩ := readCount hcount (At.start _) (by omega)
  rw [parseExportSection, outcome_bind_of_done hdone, hvalue, Int.toNat_natCast]
  have hitemsat : At (count ++ items) (items ++ []) leb.offset := by
    rw [List.append_nil]
    exact hrest
  exact exportLoop_items replaceInvalid hitems hitemsat hsize

end Vectors

section Sections

variable (replaceInvalid : List UInt8 → List Char) {bytes : List UInt8} {sections : List WasmFormat.Section}

theorem sectioned_eq (h : WasmFormat.Items WasmFormat.SectionCode sections bytes) (hsize : bytes.length < 2 ^ 31)
    {parts : List (UInt8 × List UInt8)} (hparts : Sectioned bytes parts) : parts = sections := by
  induction h generalizing parts with
  | nil =>
    cases hparts
    rfl
  | @cons s sections bytes later head _ ih =>
    obtain ⟨hcode⟩ := head
    rename_i id content size
    rw [List.cons_append, sectioned_cons_iff] at hparts
    obtain ⟨-, behind, hbehind, rfl⟩ := hparts
    simp only [List.cons_append, List.length_cons, List.length_append] at hsize
    have hfield : field (size ++ content ++ later) = (BitVec.ofNat 32 content.length, content ++ later) := by
      rw [List.append_assoc]
      exact field_u32 hcode _
    have hlength : (BitVec.ofNat 32 content.length).toNat = content.length := by
      rw [BitVec.toNat_ofNat]
      exact Nat.mod_eq_of_lt (by omega)
    rw [hfield] at hbehind
    dsimp only at hbehind
    rw [hlength, List.drop_left] at hbehind
    rw [ih (by omega) hbehind, subsectionBytes, hfield, hlength, List.take_left]

theorem parseSection_vectors {fuel : ℕ} {current : WasmSection} {contract next : ParsedContract}
    (h : (parseSection replaceInvalid fuel current contract).outcome = .done next) :
    (current.id = some 1 → (parseTypeSection current.data).outcome = .done next.types) ∧
      (current.id ≠ some 1 → next.types = contract.types) ∧
      (current.id = some 7 → (parseExportSection replaceInvalid current.data).outcome = .done next.exports) ∧
      (current.id ≠ some 7 → next.exports = contract.exports) := by
  unfold parseSection at h
  split_ifs at h with hexports htypes hname
  · obtain ⟨exports, hdone, hnext⟩ := outcome_bind_eq_done.mp h
    cases hnext
    rw [hexports]
    exact ⟨fun h => (by cases h), fun _ => rfl, fun _ => hdone, fun h => absurd rfl h⟩
  · obtain ⟨types, hdone, hnext⟩ := outcome_bind_eq_done.mp h
    cases hnext
    exact ⟨fun _ => hdone, fun h => absurd htypes h, fun h => absurd h hexports, fun _ => rfl⟩
  · obtain ⟨nameMap, hdone, hnext⟩ := outcome_bind_eq_done.mp h
    cases hnext
    exact ⟨fun h => absurd h htypes, fun _ => rfl, fun h => absurd h hexports, fun _ => rfl⟩
  · cases h
    exact ⟨fun h => absurd h htypes, fun _ => rfl, fun h => absurd h hexports, fun _ => rfl⟩

theorem vector_of_sections {fuel : ℕ} {β : Type} (get : ParsedContract → β) (id : UInt8) (value : β)
    (keeps : ∀ current contract next, (parseSection replaceInvalid fuel current contract).outcome = .done next →
      current.id ≠ some id → get next = get contract) {parsed : List WasmSection} {contract last : ParsedContract}
    (sets : ∀ current ∈ parsed, current.id = some id → ∀ contract next,
      (parseSection replaceInvalid fuel current contract).outcome = .done next → get next = value)
    (h : (parseSections replaceInvalid fuel parsed contract).outcome = .done last) :
    ((∃ current ∈ parsed, current.id = some id) ∨ get contract = value) → get last = value := by
  induction parsed generalizing contract with
  | nil =>
    cases h
    rintro (⟨current, hcurrent, -⟩ | hvalue)
    · cases hcurrent
    · exact hvalue
  | cons current parsed ih =>
    obtain ⟨next, hnext, hlast⟩ := outcome_bind_eq_done.mp h
    rw [List.forall_mem_cons] at sets
    intro hor
    apply ih sets.2 hlast
    by_cases hid : current.id = some id
    · exact .inr (sets.1 hid contract next hnext)
    · obtain ⟨found, hfound, hsame⟩ | hvalue := hor
      · rcases List.mem_cons.mp hfound with rfl | hfound
        · exact absurd hsame hid
        · exact .inl ⟨found, hfound, hsame⟩
      · exact .inr ((keeps current contract next hnext hid).trans hvalue)

end Sections

section Contracts

variable (replaceInvalid : List UInt8 → List Char) {bytes : List UInt8} {sections : List WasmFormat.Section}
variable {m : WasmFormat.Module} {fuel : ℕ} {contract : ParsedContract}

theorem section_unique (h : sections.Pairwise fun a b => a.1 = b.1 → a.1 = 0) {id : UInt8} (hid : id ≠ 0)
    {content other : List UInt8} (hcontent : (id, content) ∈ sections) (hother : (id, other) ∈ sections) :
    other = content := by
  have hsymm : Std.Symm fun a b : WasmFormat.Section => a.1 = b.1 → a.1 ≠ 0 → a = b :=
    ⟨fun a b hab hsame hzero => (hab hsame.symm (hsame ▸ hzero)).symm⟩
  have hall : ∀ a ∈ sections, ∀ b ∈ sections, a.1 = b.1 → a.1 ≠ 0 → a = b := by
    apply List.Pairwise.forall_of_forall
    · exact fun _ _ _ _ => rfl
    · exact h.imp fun hab hsame hzero => absurd (hab hsame) hzero
  exact (congrArg Prod.snd (hall _ hcontent _ hother rfl hid)).symm

theorem vector_held {parsed : List WasmSection} {β α : Type} {start last : ParsedContract} {item : α → List UInt8 → Prop}
    {as : List α} (get : ParsedContract → List β) (id : UInt8) (hid : id ≠ 0) (read : α → β)
    (hsections : WasmFormat.Items WasmFormat.SectionCode sections bytes) (hsize : bytes.length < 2 ^ 31)
    (hdistinct : sections.Pairwise fun a b => a.1 = b.1 → a.1 = 0) (hheld : WasmFormat.Holds sections id item as)
    (hdescribes : List.Forall₂ (Describes replaceInvalid) sections parsed)
    (keeps : ∀ current contract next, (parseSection replaceInvalid fuel current contract).outcome = .done next →
      current.id ≠ some id → get next = get contract)
    (sets : ∀ current contract next, (parseSection replaceInvalid fuel current contract).outcome = .done next →
      current.id = some id → current.data.length < 2 ^ 31 → WasmFormat.Vector item as current.data →
        get next = as.map read)
    (hstart : get start = []) (h : (parseSections replaceInvalid fuel parsed start).outcome = .done last) :
    get last = as.map read := by
  have hfound : ∀ current ∈ parsed, current.id = some id → (id, current.data) ∈ sections := by
    intro current hcurrent hsame
    obtain ⟨i, hi, rfl⟩ := List.getElem_of_mem hcurrent
    have hlength := hdescribes.length_eq
    have hpart := List.Forall₂.get hdescribes (i := i) (by omega) hi
    rw [List.get_eq_getElem, List.get_eq_getElem] at hpart
    rw [hpart.id] at hsame
    cases hsame
    rw [hpart.data]
    exact List.getElem_mem _
  obtain ⟨content, hmem, hvector⟩ | ⟨habsent, rfl⟩ := hheld
  · apply vector_of_sections replaceInvalid get id _ keeps ?_ h
    · obtain ⟨i, hi, hpart⟩ := List.getElem_of_mem hmem
      have hlength := hdescribes.length_eq
      have hdescribed := List.Forall₂.get hdescribes (i := i) hi (by omega)
      rw [List.get_eq_getElem, List.get_eq_getElem, hpart] at hdescribed
      exact .inl ⟨_, List.getElem_mem _, hdescribed.id⟩
    · intro current hcurrent hsame contract next hnext
      have hdata := section_unique hdistinct hid hmem (hfound current hcurrent hsame)
      have hshort := WasmFormat.content_length_le hsections hmem
      rw [← hdata] at hshort hvector
      exact sets current contract next hnext hsame (lt_of_le_of_lt hshort hsize) hvector
  · apply vector_of_sections replaceInvalid get id _ keeps ?_ h
    · exact .inr hstart
    · intro current hcurrent hsame
      exact absurd (hfound current hcurrent hsame) (habsent _)

theorem parsed_vectors (hcode : WasmFormat.Encodes m bytes sections)
    (hdone : (parseContractWasm replaceInvalid fuel bytes).outcome = .done contract) :
    bytes.length ≤ maxModuleSize ∧ contract.types = m.types.map FuncType.ofSignature ∧
      contract.exports = m.exports.map (ExportEntry.ofExport replaceInvalid) ∧
      contract.exportedFunctions = exportedFunctions contract := by
  unfold parseContractWasm at hdone
  split_ifs at hdone with hsize
  · cases hdone
  · have hsmall : bytes.length < 2 ^ 31 := by
      unfold maxModuleSize at hsize
      omega
    obtain ⟨header, hheader, hdone⟩ := outcome_bind_eq_done.mp hdone
    obtain ⟨parsed, hparsed, hdone⟩ := outcome_bind_eq_done.mp hdone
    obtain ⟨last, hlast, hdone⟩ := outcome_bind_eq_done.mp hdone
    cases hdone
    obtain ⟨-, ⟨-, error, herror⟩ | ⟨hhas, wasmModule, hfirst⟩⟩ := parseModuleHeader_spec bytes
    · rw [herror] at hheader
      cases hheader
    · rw [hfirst] at hheader
      cases hheader
      obtain ⟨parts, hparts, hdescribes⟩ := sectioned_of_walkSections replaceInvalid fuel (at_header hhas) hparsed
      obtain ⟨rest, rfl, hsections⟩ := hcode.body
      have hrest : rest.length < 2 ^ 31 := by
        rw [List.length_append] at hsmall
        omega
      have hsame := sectioned_eq hsections hrest hparts
      subst hsame
      have htypes : last.types = m.types.map FuncType.ofSignature :=
        vector_held replaceInvalid ParsedContract.types 1 (by decide) FuncType.ofSignature hsections hrest
          hcode.distinct hcode.types hdescribes
          (fun current contract next hnext => (parseSection_vectors replaceInvalid hnext).2.1)
          (fun current contract next hnext hid hlength hvector => by
            have htypes := (parseSection_vectors replaceInvalid hnext).1 hid
            rw [parseTypeSection_vector hvector hlength] at htypes
            exact (Outcome.done.inj htypes).symm) rfl hlast
      have hexports : last.exports = m.exports.map (ExportEntry.ofExport replaceInvalid) :=
        vector_held replaceInvalid ParsedContract.exports 7 (by decide) (ExportEntry.ofExport replaceInvalid)
          hsections hrest hcode.distinct hcode.exports hdescribes
          (fun current contract next hnext => (parseSection_vectors replaceInvalid hnext).2.2.2)
          (fun current contract next hnext hid hlength hvector => by
            have hexports := (parseSection_vectors replaceInvalid hnext).2.2.1 hid
            rw [parseExportSection_vector replaceInvalid hvector hlength] at hexports
            exact (Outcome.done.inj hexports).symm) rfl hlast
      exact ⟨not_lt.mp hsize, htypes, hexports, rfl⟩

def SignaturesRight (m : WasmFormat.Module) (contract : ParsedContract) : Prop :=
  ∀ entry ∈ contract.exportedFunctions, ∃ exported signature, m.exports[entry.exportIndex]? = some exported ∧
    exported.kind = 0 ∧ entry.funcIndex = exported.index ∧ m.signature exported.index = some signature ∧
    entry.paramTypes = signature.params.map some ∧ entry.resultTypes = signature.results.map some

def IndicesCoincide (m : WasmFormat.Module) : Prop :=
  ∀ exported ∈ m.exports, exported.kind = 0 →
    m.signature exported.index = some ((m.types[exported.index]?).getD { params := [], results := [] })

theorem ofSignature_injective : Function.Injective FuncType.ofSignature := by
  intro a b h
  have hparams : a.params.map some = b.params.map some := congrArg FuncType.params h
  have hresults : a.results.map some = b.results.map some := congrArg FuncType.results h
  have hsome : Function.Injective (List.map (some : UInt8 → Option UInt8)) :=
    List.map_injective_iff.mpr (Option.some_injective _)
  cases a
  cases b
  rw [WasmFormat.Signature.mk.injEq]
  exact ⟨hsome hparams, hsome hresults⟩

theorem funcTypeAt_ofSignature (types : List WasmFormat.Signature) (index : ℕ) :
    funcTypeAt (types.map FuncType.ofSignature) index =
      FuncType.ofSignature ((types[index]?).getD { params := [], results := [] }) := by
  rw [funcTypeAt, if_pos (Int.natCast_nonneg index), Int.toNat_natCast, List.getElem?_map]
  cases types[index]? <;> rfl

theorem exported_signatures_iff (hm : m.WellFormed) (hcode : WasmFormat.Encodes m bytes sections)
    (hdone : (parseContractWasm replaceInvalid fuel bytes).outcome = .done contract) :
    SignaturesRight m contract ↔ IndicesCoincide m := by
  obtain ⟨hsize, htypes, hexports, hfunctions⟩ := parsed_vectors replaceInvalid hcode hdone
  have hindex : ∀ exported ∈ m.exports, exported.kind = 0 →
      (BitVec.ofNat 32 exported.index).toInt = exported.index := by
    intro exported hexported hkind
    have hlt := hm.exported exported hexported hkind
    have hlength := hcode.typeIndices_length
    unfold maxModuleSize at hsize
    exact toInt_ofNat (by omega)
  have hentry : ∀ i exported, m.exports[i]? = some exported → exported.kind = 0 →
      ∃ entry ∈ contract.exportedFunctions, entry.exportIndex = i ∧ entry.funcIndex = exported.index ∧
        FuncType.mk entry.paramTypes entry.resultTypes =
          FuncType.ofSignature ((m.types[exported.index]?).getD { params := [], results := [] }) := by
    intro i exported hi hkind
    have hat : (ExportEntry.ofExport replaceInvalid exported, i) ∈ contract.exports.zipIdx := by
      rw [List.mk_mem_zipIdx_iff_getElem?, hexports, List.getElem?_map, hi]
      rfl
    have hsame := hindex exported (List.mem_of_getElem? hi) hkind
    rw [hfunctions]
    refine ⟨_, List.mem_map.mpr ⟨_, List.mem_filter.mpr ⟨hat, ?_⟩, rfl⟩, rfl, hsame, ?_⟩
    · exact decide_eq_true (congrArg some hkind)
    · change funcTypeAt contract.types (BitVec.ofNat 32 exported.index).toInt = _
      rw [hsame, htypes, funcTypeAt_ofSignature]
  constructor
  · intro hright exported hexported hkind
    obtain ⟨i, hi⟩ := List.getElem?_of_mem hexported
    obtain ⟨entry, hmem, hposition, hfunc, htype⟩ := hentry i exported hi hkind
    obtain ⟨found, signature, hfound, -, -, hsignature, hparams, hresults⟩ := hright entry hmem
    rw [hposition, hi] at hfound
    cases hfound
    rw [hparams, hresults] at htype
    rw [hsignature, ofSignature_injective htype]
  · intro hcoincide entry hmem
    rw [hfunctions] at hmem
    obtain ⟨⟨parsed, i⟩, hfiltered, rfl⟩ := List.mem_map.mp hmem
    obtain ⟨hat, hkind⟩ := List.mem_filter.mp hfiltered
    rw [List.mk_mem_zipIdx_iff_getElem?, hexports, List.getElem?_map] at hat
    obtain ⟨exported, hi, rfl⟩ := Option.map_eq_some_iff.mp hat
    have hzero : exported.kind = 0 := Option.some.inj (of_decide_eq_true hkind)
    have hexported := List.mem_of_getElem? hi
    have hsame := hindex exported hexported hzero
    have htype : funcTypeAt contract.types (BitVec.ofNat 32 exported.index).toInt =
        FuncType.ofSignature ((m.types[exported.index]?).getD { params := [], results := [] }) := by
      rw [hsame, htypes, funcTypeAt_ofSignature]
    exact ⟨exported, _, hi, hzero, hsame, hcoincide exported hexported hzero, congrArg FuncType.params htype,
      congrArg FuncType.results htype⟩

end Contracts

section Sample

def sampleModule (imported defined : ℕ) : WasmFormat.Module where
  types := [⟨[], []⟩, ⟨[0x7f], []⟩]
  imports := [⟨[0x6d], [0x66], .func imported⟩]
  functions := [defined]
  exports := [⟨[0x67], 0, 1⟩]

def sampleSections (imported defined : UInt8) : List WasmFormat.Section :=
  [(1, [2, 0x60, 0, 0, 0x60, 1, 0x7f, 0]), (2, [1, 1, 0x6d, 1, 0x66, 0, imported]), (3, [1, defined]),
    (7, [1, 1, 0x67, 0, 1]), (10, [1, 2, 0, 0x0b])]

def sampleBytes (imported defined : UInt8) : List UInt8 :=
  [0x00, 0x61, 0x73, 0x6d, 0x01, 0x00, 0x00, 0x00] ++
    (sampleSections imported defined).flatMap fun s => s.1 :: UInt8.ofNat s.2.length :: s.2

open WasmFormat in
theorem encodes_sample {imported defined : UInt8} (himported : imported.toNat < 128) (hdefined : defined.toNat < 128) :
    Encodes (sampleModule imported.toNat defined.toNat) (sampleBytes imported defined)
      (sampleSections imported defined) where
  body := ⟨_, rfl, items_sections (by simp [sampleSections])⟩
  distinct := by simp [sampleSections]
  types := by
    have hempty : Vector Byte [] [0] := vector_short (items_bytes []) (by decide)
    have hparams : Vector Byte [0x7f] [1, 0x7f] := vector_short (items_bytes [0x7f]) (by decide)
    have hnullary : SignatureCode ⟨[], []⟩ (0x60 :: ([0] ++ [0])) := .mk hempty hempty
    have hunary : SignatureCode ⟨[0x7f], []⟩ (0x60 :: ([1, 0x7f] ++ [0])) := .mk hparams hempty
    exact .inl ⟨_, List.mem_cons_self, vector_short (.cons hnullary (items_singleton hunary)) (by simp [sampleModule])⟩
  imports := by
    have hmodule : Vector Byte [0x6d] [1, 0x6d] := vector_short (items_bytes [0x6d]) (by decide)
    have hname : Vector Byte [0x66] [1, 0x66] := vector_short (items_bytes [0x66]) (by decide)
    have himport : ImportCode ⟨[0x6d], [0x66], .func imported.toNat⟩ ([1, 0x6d] ++ ([1, 0x66] ++ [0, imported])) :=
      .mk hmodule hname (.func (u32_short himported))
    exact .inl ⟨[1, 1, 0x6d, 1, 0x66, 0, imported], by simp [sampleSections],
      vector_short (items_singleton himport) Nat.one_lt_ofNat⟩
  functions := .inl ⟨[1, defined], by simp [sampleSections],
    vector_short (items_singleton (u32_short hdefined)) Nat.one_lt_ofNat⟩
  exports := by
    have hname : Vector Byte [0x67] [1, 0x67] := vector_short (items_bytes [0x67]) (by decide)
    have hindex : U32 1 [1] := u32_ofNat (by decide)
    have hkind : (0 : UInt8).toNat ≤ 3 := by decide
    have hexport : ExportCode ⟨[0x67], 0, 1⟩ ([1, 0x67] ++ 0 :: [1]) := .mk hname hkind hindex
    exact .inl ⟨[1, 1, 0x67, 0, 1], by simp [sampleSections], vector_short (items_singleton hexport) Nat.one_lt_ofNat⟩

theorem parses_of_isDone {bytes : List UInt8} (h : (match (parseContractWasm (fun _ => []) 100 bytes).outcome with
    | .done _ => true
    | _ => false) = true) : ∃ contract, (parseContractWasm (fun _ => []) 100 bytes).outcome = .done contract := by
  split at h
  · rename_i contract hdone
    exact ⟨contract, hdone⟩
  · cases h

theorem plain_indices_right : ∃ contract, (parseContractWasm (fun _ => []) 100 (sampleBytes 0 1)).outcome =
    .done contract ∧ SignaturesRight (sampleModule 0 1) contract := by
  obtain ⟨contract, hdone⟩ := @parses_of_isDone (sampleBytes 0 1) (by decide +kernel)
  have hwell : (sampleModule 0 1).WellFormed := ⟨by decide, by decide⟩
  have hcoincide : IndicesCoincide (sampleModule 0 1) := by
    unfold IndicesCoincide
    decide
  exact ⟨contract, hdone,
    (exported_signatures_iff _ hwell (@encodes_sample 0 1 (by decide) (by decide)) hdone).mpr hcoincide⟩

theorem shifted_indices_wrong : ∃ contract, (parseContractWasm (fun _ => []) 100 (sampleBytes 1 0)).outcome =
    .done contract ∧ ¬SignaturesRight (sampleModule 1 0) contract := by
  -- the exported function has no parameters; the entry shows the one of the second type
  obtain ⟨contract, hdone⟩ := @parses_of_isDone (sampleBytes 1 0) (by decide +kernel)
  obtain ⟨-, htypes, hexports, hfunctions⟩ :=
    parsed_vectors _ (@encodes_sample 1 0 (by decide) (by decide)) hdone
  refine ⟨contract, hdone, fun hright => ?_⟩
  have hentry : ∃ entry ∈ contract.exportedFunctions, entry.exportIndex = 0 ∧ entry.paramTypes = [some 0x7f] := by
    rw [hfunctions, exportedFunctions, hexports, htypes]
    exact ⟨_, List.mem_cons_self, rfl, rfl⟩
  obtain ⟨entry, hmem, hindex, htype⟩ := hentry
  obtain ⟨exported, signature, hexported, -, -, hsignature, hparams, -⟩ := hright entry hmem
  rw [hindex] at hexported
  rw [htype] at hparams
  cases hexported
  cases hsignature
  cases hparams

end Sample

end CrashLab.WasmParse
