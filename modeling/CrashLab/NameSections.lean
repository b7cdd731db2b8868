import CrashLab.WasmSignatures

namespace CrashLab.WasmParse

open CursorWalks Walk

section Aligned

variable (replaceInvalid : List UInt8 → List Char) {data bytes rest : List UInt8} {offset : ℤ}

def nameEntry (entry : ℕ × List UInt8) : ℤ × List Char :=
  ((BitVec.ofNat 32 entry.1).toInt, decodeText replaceInvalid entry.2)

def NameMap.add (result : NameMap) : WasmFormat.Subsection → NameMap
  | .moduleName name => { result with moduleName := some (decodeText replaceInvalid name) }
  | .functionNames entries =>
    { result with functionNames := (entries.map (nameEntry replaceInvalid)).reverse ++ result.functionNames }
  | .other _ _ => result

theorem readText {name : List UInt8} (h : WasmFormat.Vector WasmFormat.Byte name bytes)
    (hat : At data (bytes ++ rest) offset) (hsize : bytes.length < 2 ^ 31) :
    ∃ leb, (readLeb stopping data offset).outcome = .done leb ∧ leb.value.toInt = name.length ∧
      leb.offset + name.length ≤ data.length ∧ slice data leb.offset (leb.offset + name.length) = name ∧
      At data rest (leb.offset + name.length) := by
  have hlength := h.length_lt WasmFormat.Byte.pos
  obtain ⟨count, items, rfl, hcount, hitems⟩ := h
  obtain rfl := hitems.bytes_eq
  rw [List.append_assoc] at hat
  obtain ⟨leb, hdone, hvalue, hat'⟩ := readCount hcount hat (by omega)
  have hmoved := hat'.advance (n := items.length) (by simp)
  rw [List.drop_left] at hmoved
  have hend := hmoved.add_length
  refine ⟨leb, hdone, hvalue, by omega, ?_, hmoved⟩
  rw [hat'.slice_eq, List.take_left]

theorem parseModuleName_vector {name : List UInt8} (h : WasmFormat.Vector WasmFormat.Byte name data)
    (hsize : data.length < 2 ^ 31) (result : NameMap) :
    (parseModuleName replaceInvalid data result).outcome = .done (result.add replaceInvalid (.moduleName name)) := by
  have hat : At data (data ++ []) 0 := by
    rw [List.append_nil]
    exact At.start data
  obtain ⟨leb, hdone, hvalue, hstop, hslice, -⟩ := readText h hat hsize
  rw [parseModuleName, outcome_bind_of_done hdone]
  simp only [hvalue, if_pos hstop, hslice]
  rfl

theorem functionNameLoop_items {entries : List (ℕ × List UInt8)}
    (h : WasmFormat.Items WasmFormat.NameAssocCode entries bytes) (hat : At data (bytes ++ rest) offset)
    (hsize : data.length < 2 ^ 31) (result : NameMap) :
    (functionNameLoop replaceInvalid data entries.length offset result).outcome =
      .done (result.add replaceInvalid (.functionNames entries)) := by
  induction h generalizing offset result with
  | nil => rfl
  | @cons entry entries bytes later head _ ih =>
    obtain ⟨hindex, hname⟩ := head
    rename_i index name indexBytes nameBytes
    have hlength := hat.add_length
    have hnonneg := hat.nonneg
    simp only [List.append_assoc, List.length_append] at hat hlength
    obtain ⟨funcIdx, hidx, hidxvalue, hat₁⟩ := readLeb_u32 hindex hat
    obtain ⟨leb, hdone, hvalue, hstop, hslice, hat₂⟩ := readText hname hat₁ (by omega)
    rw [List.length_cons, functionNameLoop, outcome_bind_of_done hidx, outcome_bind_of_done hdone]
    simp only [hvalue, if_pos hstop, hslice]
    rw [outcome_bind_of_done (outcome_advance _ _), ih hat₂, hidxvalue]
    simp [NameMap.add, nameEntry]

theorem parseFunctionNames_vector {entries : List (ℕ × List UInt8)}
    (h : WasmFormat.Vector WasmFormat.NameAssocCode entries data) (hsize : data.length < 2 ^ 31) (result : NameMap) :
    (parseFunctionNames replaceInvalid data result).outcome =
      .done (result.add replaceInvalid (.functionNames entries)) := by
  have hlength := h.length_lt WasmFormat.NameAssocCode.pos
  obtain ⟨count, items, rfl, hcount, hitems⟩ := h
  obtain ⟨leb, hdone, hvalue, hrest⟩ := readCount hcount (At.start _) (by omega)
  have hat : At (count ++ items) (items ++ []) leb.offset := by
    rw [List.append_nil]
    exact hrest
  rw [parseFunctionNames, outcome_bind_of_done hdone, hvalue, Int.toNat_natCast]
  exact functionNameLoop_items replaceInvalid hitems hat hsize result

theorem parseSubsection_content {s : WasmFormat.Subsection} (h : s.Content data) (hsize : data.length < 2 ^ 31)
    (result : NameMap) :
    (parseSubsection replaceInvalid (some s.id) data result).outcome = .done (result.add replaceInvalid s) := by
  cases h with
  | moduleName h => exact parseModuleName_vector replaceInvalid h hsize result
  | functionNames h => exact parseFunctionNames_vector replaceInvalid h hsize result
  | @other id _ h =>
    have hone : some id ≠ some (1 : UInt8) := by
      rintro ⟨⟩
      exact absurd h (by decide)
    have hzero : some id ≠ some (0 : UInt8) := by
      rintro ⟨⟩
      exact absurd h (by decide)
    rw [parseSubsection, WasmFormat.Subsection.id, if_neg hone, if_neg hzero]
    rfl

theorem subsectionLoop_items {subsections : List WasmFormat.Subsection}
    (h : WasmFormat.Items WasmFormat.SubsectionCode subsections bytes) (hat : AtOrPast data bytes offset)
    (hsize : data.length < 2 ^ 31) {fuel : ℕ} (hfuel : subsections.length < fuel) (result : NameMap) :
    (subsectionLoop replaceInvalid data fuel offset result).outcome =
      .done (subsections.foldl (NameMap.add replaceInvalid) result) := by
  induction h generalizing offset fuel result with
  | nil =>
    obtain ⟨fuel, rfl⟩ := Nat.exists_eq_add_one.mpr hfuel
    rw [subsectionLoop, if_pos (hat.at_end.mpr rfl)]
    rfl
  | @cons s subsections bytes later head _ ih =>
    obtain ⟨hcontent, hcode⟩ := head
    rename_i content size
    obtain ⟨fuel, rfl⟩ := Nat.exists_eq_add_one.mpr (Nat.zero_lt_of_lt hfuel)
    rw [List.length_cons] at hfuel
    have hat' : At data (s.id :: (size ++ (content ++ later))) offset := by
      rw [List.cons_append, List.append_assoc] at hat
      exact hat.at_cons
    have hlength := hat'.add_length
    have hnonneg := hat'.nonneg
    simp only [List.length_cons, List.length_append] at hlength
    obtain ⟨leb, hdone, hvalue, hrest⟩ := readCount hcode hat'.next (by omega)
    have hmoved := hrest.advance (n := content.length) (by simp)
    rw [List.drop_left] at hmoved
    have hslice := hrest.slice_eq (n := content.length)
    rw [List.take_left] at hslice
    rw [subsectionLoop, if_neg fun hend => List.cons_ne_nil _ _ (hat'.at_end.mp hend),
      outcome_bind_of_done hat'.outcome_readNext]
    dsimp only
    rw [outcome_bind_of_done hdone, outcome_bind_of_done (outcome_advance _ _), hvalue, hslice,
      outcome_bind_of_done (parseSubsection_content replaceInvalid hcontent (by omega) result),
      ih (.inl hmoved) (by omega), List.foldl_cons]

end Aligned

section Landing

variable (replaceInvalid : List UInt8 → List Char) {data bytes subs count : List UInt8} {offset : ℤ}

def Reads (data : List UInt8) (offset : ℤ) (result : NameMap) : Prop :=
  ∃ fuel, (subsectionLoop replaceInvalid data fuel offset { }).outcome = .done result

theorem subsectionLoop_mono {fuel : ℕ} {start result : NameMap}
    (h : (subsectionLoop replaceInvalid data fuel offset start).outcome = .done result) :
    (subsectionLoop replaceInvalid data (fuel + 1) offset start).outcome = .done result := by
  induction fuel generalizing offset start with
  | zero => cases h
  | succ fuel ih =>
    rw [subsectionLoop] at h ⊢
    split_ifs at h ⊢
    · exact h
    · obtain ⟨kind, hkind, h⟩ := outcome_bind_eq_done.mp h
      obtain ⟨size, hsize, h⟩ := outcome_bind_eq_done.mp h
      obtain ⟨target, htarget, h⟩ := outcome_bind_eq_done.mp h
      obtain ⟨next, hnext, h⟩ := outcome_bind_eq_done.mp h
      rw [outcome_bind_of_done hkind, outcome_bind_of_done hsize, outcome_bind_of_done htarget,
        outcome_bind_of_done hnext]
      exact ih h

theorem Reads.unique {a b : NameMap} (ha : Reads replaceInvalid data offset a) (hb : Reads replaceInvalid data offset b) :
    a = b := by
  obtain ⟨m, hm⟩ := ha
  obtain ⟨n, hn⟩ := hb
  have hmore : ∀ {fuel more : ℕ} {result : NameMap},
      (subsectionLoop replaceInvalid data fuel offset { }).outcome = .done result → fuel ≤ more →
        (subsectionLoop replaceInvalid data more offset { }).outcome = .done result := by
    intro fuel more result h hle
    induction more, hle using Nat.le_induction with
    | base => exact h
    | succ more _ ih => exact subsectionLoop_mono replaceInvalid ih
  have hm := hmore hm (Nat.le_max_left m n)
  have hn := hmore hn (Nat.le_max_right m n)
  rw [hm] at hn
  exact Outcome.done.inj hn

theorem reads_other {kind : UInt8} {n : ℕ} {rest : List UInt8} (hkind : 2 ≤ kind.toNat)
    (hat : At data (kind :: bytes) offset) (hfield : field bytes = (BitVec.ofNat 32 n, rest)) (hn : n < 2 ^ 31)
    (result : NameMap) :
    Reads replaceInvalid data offset result ↔ Reads replaceInvalid data (data.length - rest.length + n) result := by
  have hturn : ∀ fuel, (subsectionLoop replaceInvalid data (fuel + 1) offset { }).outcome =
      (subsectionLoop replaceInvalid data fuel (data.length - rest.length + n) { }).outcome := by
    intro fuel
    obtain ⟨size, next, hvalue, hrest, hnext, -, houtcome⟩ := subsectionLoop_cons replaceInvalid hat fuel { }
    have hone : some kind ≠ some (1 : UInt8) := by
      rintro ⟨⟩
      exact absurd hkind (by decide)
    have hzero : some kind ≠ some (0 : UInt8) := by
      rintro ⟨⟩
      exact absurd hkind (by decide)
    rw [parseSubsection, if_neg hone, if_neg hzero] at hnext
    cases hnext
    rw [hfield] at hvalue hrest
    have hlength := hrest.add_length
    rw [houtcome, hvalue, toInt_ofNat hn]
    congr 1
    dsimp only at hlength ⊢
    rw [show size.offset = data.length - rest.length by omega]
  constructor
  · rintro ⟨fuel, h⟩
    cases fuel with
    | zero => cases h
    | succ fuel =>
      rw [hturn] at h
      exact ⟨fuel, h⟩
  · rintro ⟨fuel, h⟩
    refine ⟨fuel + 1, ?_⟩
    rwa [hturn]

def swallowed (count : List UInt8) : ℕ := if count.length = 1 then 107 else 95

def landing (count : List UInt8) : ℤ := count.length + 4 + swallowed count

theorem reads_landing (hcount : WasmFormat.U32 4 count) (result : NameMap) :
    Reads replaceInvalid (count ++ WasmFormat.nameWord ++ subs) 0 result ↔
      Reads replaceInvalid (count ++ WasmFormat.nameWord ++ subs) (landing count) result := by
  obtain ⟨hcode, hshort, -⟩ := hcount
  generalize hfour : 4 = n at hcode
  cases hcode with
  | @last byte low =>
    have hat := At.start ([byte] ++ WasmFormat.nameWord ++ subs)
    have hfield : field (WasmFormat.nameWord ++ subs) = (BitVec.ofNat 32 110, [0x61, 0x6d, 0x65] ++ subs) := rfl
    rw [reads_other replaceInvalid (by omega) hat hfield (by norm_num)]
    congr! 1
    simp only [landing, swallowed, WasmFormat.nameWord, List.length_append, List.length_cons, List.length_nil]
    push_cast
    ring
  | @more byte n tail high behind =>
    have hzero : n = 0 := by omega
    subst hzero
    have hat := At.start (byte :: tail ++ WasmFormat.nameWord ++ subs)
    rw [List.length_cons] at hshort
    have hfield : field (tail ++ (WasmFormat.nameWord ++ subs)) = (BitVec.ofNat 32 0, WasmFormat.nameWord ++ subs) := by
      rw [field, fieldFrom_uleb behind (by omega), Nat.shiftLeft_zero]
    have hword : field ([0x61, 0x6d, 0x65] ++ subs) = (BitVec.ofNat 32 97, [0x6d, 0x65] ++ subs) := rfl
    have hpos := behind.pos
    rw [List.append_assoc, List.cons_append] at hat ⊢
    rw [reads_other replaceInvalid (by omega) hat hfield (by norm_num)]
    have hmoved : At (byte :: (tail ++ (WasmFormat.nameWord ++ subs))) (0x6e :: ([0x61, 0x6d, 0x65] ++ subs))
        (tail.length + 1 : ℕ) := ⟨byte :: tail, rfl, rfl⟩
    have hsecond := reads_other replaceInvalid (by decide) hmoved hword (by norm_num) result
    have hlength : (((byte :: (tail ++ (WasmFormat.nameWord ++ subs))).length : ℤ) -
        (WasmFormat.nameWord ++ subs).length + (0 : ℕ)) = (tail.length + 1 : ℕ) := by
      simp only [List.length_append, List.length_cons]
      push_cast
      ring
    rw [hlength, hsecond]
    congr! 1
    simp only [landing, swallowed, WasmFormat.nameWord, List.length_append, List.length_cons, List.length_nil]
    rw [if_neg (by omega)]
    push_cast
    ring

theorem at_landing (count subs : List UInt8) :
    AtOrPast (count ++ WasmFormat.nameWord ++ subs) (subs.drop (swallowed count)) (landing count) := by
  have hat : At (count ++ WasmFormat.nameWord ++ subs) subs (count.length + 4 : ℕ) := by
    refine ⟨count ++ WasmFormat.nameWord, rfl, ?_⟩
    rw [List.length_append]
    rfl
  have hmoved := hat.advance_any (swallowed count)
  rwa [landing, ← Nat.cast_ofNat, ← Nat.cast_add]

end Landing

section NameMaps

variable (replaceInvalid : List UInt8 → List Char)

def CalledName (part : UInt8 × List UInt8) : Prop :=
  part.1 = 0 ∧ customName replaceInvalid part.2 = "name".toList

instance (part : UInt8 × List UInt8) : Decidable (CalledName replaceInvalid part) := instDecidableAnd

theorem parseSection_nameMap {part : UInt8 × List UInt8} {parsed : WasmSection}
    (h : Describes replaceInvalid part parsed) {fuel : ℕ} {contract next : ParsedContract}
    (hdone : (parseSection replaceInvalid fuel parsed contract).outcome = .done next) :
    (CalledName replaceInvalid part → Reads replaceInvalid part.2 0 next.nameMap) ∧
      (¬CalledName replaceInvalid part → next.nameMap = contract.nameMap) := by
  unfold parseSection at hdone
  rw [h.id, h.data] at hdone
  simp only [Option.some.injEq] at hdone
  split_ifs at hdone with hexports htypes hname
  · obtain ⟨exports, -, hnext⟩ := outcome_bind_eq_done.mp hdone
    cases hnext
    exact ⟨fun h => absurd (hexports.symm.trans h.1) (by decide), fun _ => rfl⟩
  · obtain ⟨types, -, hnext⟩ := outcome_bind_eq_done.mp hdone
    cases hnext
    exact ⟨fun h => absurd (htypes.symm.trans h.1) (by decide), fun _ => rfl⟩
  · obtain ⟨nameMap, hread, hnext⟩ := outcome_bind_eq_done.mp hdone
    cases hnext
    exact ⟨fun _ => ⟨fuel, hread⟩, fun hnot => absurd ⟨hname.1, (h.name hname.1).symm.trans hname.2⟩ hnot⟩
  · cases hdone
    exact ⟨fun hcalled => absurd ⟨hcalled.1, (h.name hcalled.1).trans hcalled.2⟩ hname, fun _ => rfl⟩

theorem parseSections_nameMap {parts : List (UInt8 × List UInt8)} {parsed : List WasmSection}
    (h : List.Forall₂ (Describes replaceInvalid) parts parsed) {fuel : ℕ} {contract last : ParsedContract}
    (hdone : (parseSections replaceInvalid fuel parsed contract).outcome = .done last) :
    match (parts.filter (CalledName replaceInvalid)).getLast? with
    | some part => Reads replaceInvalid part.2 0 last.nameMap
    | none => last.nameMap = contract.nameMap := by
  induction h generalizing contract with
  | nil =>
    cases hdone
    rfl
  | @cons part current parts parsed hpart _ ih =>
    obtain ⟨next, hnext, hlast⟩ := outcome_bind_eq_done.mp hdone
    obtain ⟨hcalled, hother⟩ := parseSection_nameMap replaceInvalid hpart hnext
    have hrest := ih hlast
    by_cases hname : CalledName replaceInvalid part
    · rw [List.filter_cons_of_pos (by simpa using hname), List.getLast?_cons]
      cases hfound : (parts.filter (CalledName replaceInvalid)).getLast? with
      | none =>
        rw [hfound] at hrest
        dsimp only [Option.getD_none] at hrest ⊢
        rw [hrest]
        exact hcalled hname
      | some found =>
        rw [hfound] at hrest
        exact hrest
    · rw [List.filter_cons_of_neg (by simpa using hname)]
      cases hfound : (parts.filter (CalledName replaceInvalid)).getLast? with
      | none =>
        rw [hfound] at hrest
        exact hrest.trans (hother hname)
      | some found =>
        rw [hfound] at hrest
        exact hrest

variable {m : WasmFormat.Module} {bytes : List UInt8} {sections : List WasmFormat.Section} {fuel : ℕ}
  {contract : ParsedContract}

theorem nameMap_of_last (hcode : WasmFormat.Encodes m bytes sections) {content : List UInt8}
    (hlast : (sections.filter (CalledName replaceInvalid)).getLast? = some (0, content))
    (hdone : (parseContractWasm replaceInvalid fuel bytes).outcome = .done contract) :
    Reads replaceInvalid content 0 contract.nameMap := by
  obtain ⟨hsize, -⟩ := parsed_vectors replaceInvalid hcode hdone
  rw [parseContractWasm, if_neg (not_lt.mpr hsize)] at hdone
  obtain ⟨header, hheader, hdone⟩ := outcome_bind_eq_done.mp hdone
  obtain ⟨parsed, hparsed, hdone⟩ := outcome_bind_eq_done.mp hdone
  obtain ⟨last, hsections, hdone⟩ := outcome_bind_eq_done.mp hdone
  cases hdone
  obtain ⟨-, ⟨-, error, herror⟩ | ⟨hhas, wasmModule, hfirst⟩⟩ := parseModuleHeader_spec bytes
  · rw [herror] at hheader
    cases hheader
  · rw [hfirst] at hheader
    cases hheader
    obtain ⟨parts, hparts, hdescribes⟩ := sectioned_of_walkSections replaceInvalid fuel (at_header hhas) hparsed
    obtain ⟨rest, rfl, hitems⟩ := hcode.body
    have hrest : rest.length < 2 ^ 31 := by
      rw [List.length_append, maxModuleSize] at hsize
      omega
    obtain rfl := sectioned_eq hitems hrest hparts
    have hnames := parseSections_nameMap replaceInvalid hdescribes hsections
    rw [hlast] at hnames
    exact hnames

end NameMaps

section Agreement

variable (replaceInvalid : List UInt8 → List Char)

structure NameMap.Agrees (result : NameMap) (names : WasmFormat.Names) : Prop where
  moduleName : result.moduleName = names.moduleName.map (decodeText replaceInvalid)
  functionNames : ∀ (index : ℤ) (name : List Char), result.functionNames.lookup index = some name ↔
    ∃ entry ∈ names.functionNames, index = entry.1 ∧ name = decodeText replaceInvalid entry.2

open WasmFormat in
theorem foldl_functionNames (subsections : List Subsection) (result : NameMap) :
    (subsections.foldl (NameMap.add replaceInvalid) result).functionNames =
      ((subsections.flatMap Subsection.functions).map (nameEntry replaceInvalid)).reverse ++ result.functionNames := by
  induction subsections generalizing result with
  | nil => rfl
  | cons s subsections ih =>
    rw [List.foldl_cons, ih, List.flatMap_cons, List.map_append, List.reverse_append, List.append_assoc]
    cases s <;> rfl

open WasmFormat in
theorem foldl_moduleName {subsections : List Subsection}
    (h : subsections.Pairwise fun a b => a.id.toNat < b.id.toNat) (result : NameMap) :
    (subsections.foldl (NameMap.add replaceInvalid) result).moduleName =
      ((subsections.findSome? Subsection.module?).map (decodeText replaceInvalid)).or result.moduleName := by
  induction subsections generalizing result with
  | nil => rfl
  | cons s subsections ih =>
    obtain ⟨hfirst, hrest⟩ := List.pairwise_cons.mp h
    rw [List.foldl_cons, ih hrest]
    cases s with
    | moduleName name =>
      have hnone : subsections.findSome? Subsection.module? = none := by
        rw [List.findSome?_eq_none_iff]
        intro later hlater
        have hlt := hfirst later hlater
        cases later with
        | moduleName _ => exact absurd hlt (lt_irrefl _)
        | functionNames _ => rfl
        | other _ _ => rfl
      rw [hnone]
      rfl
    | functionNames entries => rfl
    | other id content => rfl

theorem lookup_reverse_map {β : Type} {entries : List (ℤ × β)} (h : (entries.map Prod.fst).Nodup) (index : ℤ)
    (value : β) : entries.reverse.lookup index = some value ↔ (index, value) ∈ entries := by
  have hreverse : (entries.reverse.map Prod.fst).Nodup := by
    rw [List.map_reverse, List.nodup_reverse]
    exact h
  rw [← List.mem_reverse]
  generalize entries.reverse = reversed at hreverse
  induction reversed with
  | nil => simp
  | cons entry reversed ih =>
    obtain ⟨key, kept⟩ := entry
    obtain ⟨hnew, hrest⟩ := List.nodup_cons.mp hreverse
    rw [List.lookup_cons, List.mem_cons]
    by_cases hkey : index = key
    · subst hkey
      have habsent : (index, value) ∉ reversed := fun hmem => hnew (List.mem_map.mpr ⟨_, hmem, rfl⟩)
      simp [habsent, eq_comm]
    · have htest : (index == key) = false := beq_eq_false_iff_ne.mpr hkey
      simp [htest, hkey, ih hrest]

variable {functions : ℕ} {names : WasmFormat.Names} {first second : List WasmFormat.Subsection} {subs : List UInt8}

open WasmFormat in
/-- What is read from the second part of the subsections agrees with them all if nothing is named in the first. -/
theorem agrees_iff (hcode : NamesCode functions names (first ++ second) subs) (hfunctions : functions < 2 ^ 31) :
    (second.foldl (NameMap.add replaceInvalid) { }).Agrees replaceInvalid names ↔
      ∀ s ∈ first, s.module? = none ∧ s.functions = [] := by
  obtain ⟨-, hsecond, hacross⟩ := List.pairwise_append.mp hcode.ordered
  have hmodule := foldl_moduleName replaceInvalid hsecond { }
  have hnames := foldl_functionNames replaceInvalid second { }
  rw [List.append_nil] at hnames
  have hindex : ∀ entry ∈ names.functionNames, (BitVec.ofNat 32 entry.1).toInt = entry.1 := by
    intro entry hentry
    have hlt := hcode.indexed entry hentry
    exact toInt_ofNat (by omega)
  constructor
  · intro hagrees s hs
    constructor
    · rw [Option.eq_none_iff_forall_ne_some]
      intro name hname
      have hlater : second.findSome? Subsection.module? = none := by
        rw [List.findSome?_eq_none_iff]
        intro later hlater
        have hlt := hacross s hs later hlater
        cases later with
        | moduleName _ => exact absurd hlt (Nat.not_lt_zero _)
        | functionNames _ => rfl
        | other _ _ => rfl
      have hfound : names.moduleName ≠ none := by
        rw [hcode.moduleName, Ne, List.findSome?_eq_none_iff]
        intro hnone
        rw [hnone s (List.mem_append_left _ hs)] at hname
        cases hname
      have hsame := hagrees.moduleName
      rw [hmodule, hlater] at hsame
      exact hfound (Option.map_eq_none_iff.mp hsame.symm)
    · rw [List.eq_nil_iff_forall_not_mem]
      intro entry hentry
      have hlater : second.flatMap Subsection.functions = [] := by
        rw [List.flatMap_eq_nil_iff]
        intro later hlater
        have hlt := hacross s hs later hlater
        cases s with
        | functionNames entries =>
          cases later with
          | moduleName _ => rfl
          | functionNames _ => exact absurd hlt (lt_irrefl _)
          | other _ _ => rfl
        | moduleName _ => cases hentry
        | other _ _ => cases hentry
      have hmem : entry ∈ names.functionNames := by
        rw [hcode.functionNames]
        exact List.mem_flatMap.mpr ⟨s, List.mem_append_left _ hs, hentry⟩
      have hlookup := (hagrees.functionNames entry.1 (decodeText replaceInvalid entry.2)).mpr ⟨entry, hmem, rfl, rfl⟩
      rw [hnames, hlater] at hlookup
      cases hlookup
  · intro hfirst
    have hskip : first.findSome? Subsection.module? = none := by
      rw [List.findSome?_eq_none_iff]
      exact fun s hs => (hfirst s hs).1
    have hempty : first.flatMap Subsection.functions = [] := by
      rw [List.flatMap_eq_nil_iff]
      exact fun s hs => (hfirst s hs).2
    have hmoduleName := hcode.moduleName
    have hfunctionNames := hcode.functionNames
    rw [List.findSome?_append, hskip, Option.none_or] at hmoduleName
    rw [List.flatMap_append, hempty, List.nil_append] at hfunctionNames
    refine ⟨?_, ?_⟩
    · rw [hmodule, hmoduleName, Option.or_none]
    · intro index name
      have hnodup : ((names.functionNames.map (nameEntry replaceInvalid)).map Prod.fst).Nodup := by
        rw [List.map_map, List.Nodup, List.pairwise_map]
        apply hcode.indices.imp_of_mem
        intro a b ha hb hlt hsame
        simp only [Function.comp_apply, nameEntry, hindex a ha, hindex b hb] at hsame
        omega
      rw [hnames, ← hfunctionNames, lookup_reverse_map hnodup, List.mem_map]
      apply exists_congr
      intro entry
      apply and_congr_right
      intro hentry
      rw [nameEntry, hindex entry hentry, Prod.mk.injEq]
      exact and_congr eq_comm eq_comm

end Agreement

section Reports

variable (replaceInvalid : List UInt8 → List Char) {m : WasmFormat.Module} {names : WasmFormat.Names}
  {first second : List WasmFormat.Subsection} {bytes count subs : List UInt8} {sections : List WasmFormat.Section}
  {fuel : ℕ} {contract : ParsedContract}

theorem names_right_iff (hcode : WasmFormat.Encodes m bytes sections) (hcount : WasmFormat.U32 4 count)
    (hlast : (sections.filter (CalledName replaceInvalid)).getLast? = some (0, count ++ WasmFormat.nameWord ++ subs))
    (hnames : WasmFormat.NamesCode m.typeIndices.length names (first ++ second) subs)
    (hlands : WasmFormat.Items WasmFormat.SubsectionCode second (subs.drop (swallowed count)))
    (hdone : (parseContractWasm replaceInvalid fuel bytes).outcome = .done contract) :
    contract.nameMap.Agrees replaceInvalid names ↔ ∀ s ∈ first, s.module? = none ∧ s.functions = [] := by
  have hread := (reads_landing replaceInvalid hcount _).mp (nameMap_of_last replaceInvalid hcode hlast hdone)
  have hsize := (parsed_vectors replaceInvalid hcode hdone).1
  have hfunctions := hcode.typeIndices_length
  have hcontent : (count ++ WasmFormat.nameWord ++ subs).length ≤ bytes.length := by
    obtain ⟨rest, rfl, hitems⟩ := hcode.body
    have hmem := List.mem_of_getLast? hlast
    have hle := WasmFormat.content_length_le hitems (List.mem_of_mem_filter hmem)
    exact hle.trans (List.suffix_append _ _).length_le
  rw [maxModuleSize] at hsize
  have hloop := subsectionLoop_items replaceInvalid hlands (at_landing count subs) (by omega) (Nat.lt_succ_self _) { }
  rw [hread.unique replaceInvalid ⟨_, hloop⟩, agrees_iff replaceInvalid hnames (by omega)]

end Reports

section Samples

def namedModule : WasmFormat.Module where
  types := [⟨[], []⟩]
  functions := [0]

def namedSections (subs : List UInt8) : List WasmFormat.Section :=
  [(1, [1, 0x60, 0, 0]), (3, [1, 0]), (10, [1, 2, 0, 0x0b]), (0, [4] ++ WasmFormat.nameWord ++ subs)]

def namedBytes (subs : List UInt8) : List UInt8 :=
  [0x00, 0x61, 0x73, 0x6d, 0x01, 0x00, 0x00, 0x00] ++
    (namedSections subs).flatMap fun s => s.1 :: UInt8.ofNat s.2.length :: s.2

open WasmFormat in
theorem encodes_named {subs : List UInt8} (h : subs.length < 100) :
    Encodes namedModule (namedBytes subs) (namedSections subs) where
  body := by
    refine ⟨_, rfl, items_sections ?_⟩
    simp [namedSections, nameWord]
    omega
  distinct := by simp [namedSections]
  types := by
    have hempty : Vector Byte [] [0] := vector_short (items_bytes []) (by decide)
    have hnullary : SignatureCode ⟨[], []⟩ (0x60 :: ([0] ++ [0])) := .mk hempty hempty
    exact .inl ⟨_, List.mem_cons_self, vector_short (items_singleton hnullary) Nat.one_lt_ofNat⟩
  imports := .inr ⟨by simp [namedSections], rfl⟩
  functions := .inl ⟨[1, 0], by simp [namedSections],
    vector_short (items_singleton (u32_ofNat (by decide))) Nat.one_lt_ofNat⟩
  exports := .inr ⟨by simp [namedSections], rfl⟩

theorem unnamed_right : ∃ contract, (parseContractWasm (fun _ => []) 100 (namedBytes [2, 1, 0])).outcome =
    .done contract ∧ contract.nameMap.Agrees (fun _ => []) { } := by
  obtain ⟨contract, hdone⟩ := @parses_of_isDone (namedBytes [2, 1, 0]) (by decide +kernel)
  have hitems : WasmFormat.Items WasmFormat.SubsectionCode [.other 2 [0]] [2, 1, 0] :=
    WasmFormat.items_singleton (.mk (.other (by decide)) (WasmFormat.u32_ofNat (by decide)))
  have hnames : WasmFormat.NamesCode namedModule.typeIndices.length { } [.other 2 [0]] [2, 1, 0] :=
    ⟨hitems, List.pairwise_singleton _ _, rfl, rfl, .nil, by simp⟩
  have hlast : ((namedSections [2, 1, 0]).filter (CalledName fun _ => [])).getLast? =
      some (0, [4] ++ WasmFormat.nameWord ++ [2, 1, 0]) := by decide +kernel
  have hright := @names_right_iff (fun _ => []) _ _ [.other 2 [0]] [] _ _ _ _ _ _ (encodes_named (by decide))
    (WasmFormat.u32_ofNat (by decide)) hlast hnames .nil hdone
  refine ⟨contract, hdone, hright.mpr ?_⟩
  intro s hs
  obtain rfl := List.mem_singleton.mp hs
  exact ⟨rfl, rfl⟩

def reportsUnnamed (bytes : List UInt8) : Bool :=
  match (parseContractWasm (fun _ => []) 100 bytes).outcome with
  | .done contract => contract.nameMap.moduleName.isNone && contract.nameMap.functionNames.isEmpty
  | _ => false

theorem named_unreported :
    WasmFormat.NamesCode namedModule.typeIndices.length ⟨some [0x61], [(0, [0x66])]⟩
      [.moduleName [0x61], .functionNames [(0, [0x66])]] [0, 2, 1, 0x61, 1, 4, 1, 0, 1, 0x66] ∧
    ∃ contract, (parseContractWasm (fun _ => []) 100 (namedBytes [0, 2, 1, 0x61, 1, 4, 1, 0, 1, 0x66])).outcome =
      .done contract ∧ contract.nameMap.moduleName = none ∧ contract.nameMap.functionNames = [] ∧
        ¬contract.nameMap.Agrees (fun _ => []) ⟨some [0x61], [(0, [0x66])]⟩ := by
  -- the module is called a and its function f: neither is reported
  have hmodule : WasmFormat.Vector WasmFormat.Byte [0x61] [1, 0x61] :=
    WasmFormat.vector_short (WasmFormat.items_bytes [0x61]) (by decide)
  have hname : WasmFormat.Vector WasmFormat.Byte [0x66] [1, 0x66] :=
    WasmFormat.vector_short (WasmFormat.items_bytes [0x66]) (by decide)
  have hassoc : WasmFormat.NameAssocCode (0, [0x66]) ([0] ++ [1, 0x66]) := .mk (WasmFormat.u32_ofNat (by decide)) hname
  have hfunctions : WasmFormat.Vector WasmFormat.NameAssocCode [(0, [0x66])] [1, 0, 1, 0x66] :=
    WasmFormat.vector_short (WasmFormat.items_singleton hassoc) Nat.one_lt_ofNat
  have hfirst : WasmFormat.SubsectionCode (.moduleName [0x61]) (0 :: ([2] ++ [1, 0x61])) :=
    .mk (.moduleName hmodule) (WasmFormat.u32_ofNat (by decide))
  have hsecond : WasmFormat.SubsectionCode (.functionNames [(0, [0x66])]) (1 :: ([4] ++ [1, 0, 1, 0x66])) :=
    .mk (.functionNames hfunctions) (WasmFormat.u32_ofNat (by decide))
  refine ⟨⟨.cons hfirst (WasmFormat.items_singleton hsecond), ?_, rfl, rfl, List.pairwise_singleton _ _, by decide⟩, ?_⟩
  · rw [List.pairwise_pair]
    decide
  · have hnone : reportsUnnamed (namedBytes [0, 2, 1, 0x61, 1, 4, 1, 0, 1, 0x66]) = true := by decide +kernel
    unfold reportsUnnamed at hnone
    split at hnone
    · rename_i contract hdone
      obtain ⟨hempty, hnil⟩ := Bool.and_eq_true_iff.mp hnone
      have hmissing := Option.isNone_iff_eq_none.mp hempty
      refine ⟨contract, hdone, hmissing, List.isEmpty_iff.mp hnil, fun hagrees => ?_⟩
      have hsame := hagrees.moduleName
      rw [hmissing] at hsame
      cases hsame
    · cases hnone

end Samples

end CrashLab.WasmParse
