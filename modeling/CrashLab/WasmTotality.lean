import CrashLab.WasmCursors

namespace CrashLab.WasmParse

open CursorWalks Walk

section Sections

variable (replaceInvalid : List UInt8 → List Char) {buffer bytes : List UInt8} {offset : ℤ}

inductive Sectioned : List UInt8 → List (UInt8 × List UInt8) → Prop
  | nil : Sectioned [] []
  | cons {id : UInt8} {rest : List UInt8} {parts : List (UInt8 × List UInt8)} (ends : EndsWithin 4 rest)
      (fits : (field rest).1.toNat ≤ (field rest).2.length)
      (behind : Sectioned ((field rest).2.drop (field rest).1.toNat) parts) :
      Sectioned (id :: rest) ((id, subsectionBytes rest) :: parts)

def customName (data : List UInt8) : List Char :=
  let start : ℤ := data.length - (field data).2.length
  let stop := start + (field data).1.toInt
  if stop ≤ data.length then decodeText replaceInvalid (slice data start stop) else []

theorem sectionName_spec (data : List UInt8) :
    (sectionName replaceInvalid data).Sound ∧
      (sectionName replaceInvalid data).outcome = .done (customName replaceInvalid data) := by
  obtain ⟨hsound, nameLength, hdone, hvalue, hat⟩ := readLeb_stopping (At.start data)
  have hoffset : nameLength.offset = data.length - (field data).2.length := by
    have := hat.add_length
    omega
  rw [sectionName, sound_bind_of_done hdone, outcome_bind_of_done hdone, customName, ← hvalue, ← hoffset]
  simp only [hsound, true_and]
  split_ifs
  · exact ⟨sound_pure _, rfl⟩
  · exact ⟨sound_pure _, rfl⟩

theorem nameOf_spec (id : UInt8) (data : List UInt8) :
    (nameOf replaceInvalid (some id) data).Sound ∧
      ∃ name, (nameOf replaceInvalid (some id) data).outcome = .done name ∧
        (id = 0 → name = customName replaceInvalid data) := by
  obtain ⟨hsound, hdone⟩ := sectionName_spec replaceInvalid data
  unfold nameOf
  split_ifs with hid
  · exact ⟨hsound, _, hdone, fun _ => rfl⟩
  · exact ⟨sound_pure _, [], rfl, fun h => absurd (congrArg some h) hid⟩

structure Describes (part : UInt8 × List UInt8) (parsed : WasmSection) : Prop where
  id : parsed.id = some part.1
  data : parsed.data = part.2
  name : part.1 = 0 → parsed.name = customName replaceInvalid part.2

theorem walkSections_cons {id : UInt8} {rest : List UInt8} (h : At buffer (id :: rest) offset) (fuel : ℕ) :
    (¬ (EndsWithin 4 rest ∧ (field rest).1.toNat ≤ (field rest).2.length) ∧
      (walkSections replaceInvalid buffer (fuel + 1) offset).Sound ∧
        ∃ error, (walkSections replaceInvalid buffer (fuel + 1) offset).outcome = .thrown error) ∨
    (EndsWithin 4 rest ∧ (field rest).1.toNat ≤ (field rest).2.length) ∧
      ∃ offset' parsed, At buffer ((field rest).2.drop (field rest).1.toNat) offset' ∧
        Describes replaceInvalid (id, subsectionBytes rest) parsed ∧
        ((walkSections replaceInvalid buffer (fuel + 1) offset).Sound ↔
          (walkSections replaceInvalid buffer fuel offset').Sound) ∧
        ((walkSections replaceInvalid buffer (fuel + 1) offset).Finished ↔
          (walkSections replaceInvalid buffer fuel offset').Finished) ∧
        ∀ sections, (walkSections replaceInvalid buffer (fuel + 1) offset).outcome = .done sections ↔
          ∃ later, (walkSections replaceInvalid buffer fuel offset').outcome = .done later ∧
            sections = parsed :: later := by
  have hopen : ¬ (buffer.length : ℤ) ≤ offset := fun hend => absurd (h.at_end.mp hend) (List.cons_ne_nil _ _)
  rw [walkSections, if_neg hopen, sound_bind_of_done h.outcome_readNext, finished_bind_of_done h.outcome_readNext,
    outcome_bind_of_done h.outcome_readNext]
  dsimp only
  obtain ⟨hsound, hcases⟩ := readLeb_sectionSize h.next
  obtain ⟨hends, size, hdone, hvalue, hat⟩ | ⟨hends, error, hthrown⟩ := hcases
  · have hlt : size.value.toNat < 2 ^ 28 := by
      rw [hvalue]
      exact fieldFrom_lt hends (by norm_num)
    have hint := toInt_of_lt (hlt.trans (by norm_num))
    have hlength := hat.add_length
    rw [sound_bind_of_done hdone, finished_bind_of_done hdone, outcome_bind_of_done hdone, ← hvalue]
    by_cases hfits : size.value.toNat ≤ (field rest).2.length
    · have hstop : ¬ (buffer.length : ℤ) < size.offset + size.value.toInt := by omega
      have hslice := slice_at hat (hlt.trans (by norm_num))
      obtain ⟨hnamesound, name, hnamedone, hname⟩ :=
        nameOf_spec replaceInvalid id (slice buffer size.offset (size.offset + size.value.toInt))
      refine .inr ⟨⟨hends, hfits⟩, size.offset + size.value.toInt,
        ⟨some id, name, size.offset, size.value.toInt,
          slice buffer size.offset (size.offset + size.value.toInt)⟩,
        advance_at hat (hlt.trans (by norm_num)) hfits, ⟨rfl, ?_, ?_⟩, ?_, ?_, ?_⟩
      · dsimp only
        rw [hslice, subsectionBytes, hvalue]
      · intro hid
        dsimp only
        rw [hname hid, hslice, subsectionBytes, hvalue]
      · rw [if_neg hstop, sound_bind_of_done (outcome_advance _ _), sound_bind_of_done hnamedone, sound_bind,
          sound_advance]
        simp only [h.sound_readNext, hsound, hnamesound, sound_pure, true_and, implies_true, and_true,
          and_iff_right_iff_imp]
        omega
      · rw [if_neg hstop, finished_bind_of_done (outcome_advance _ _), finished_bind_of_done hnamedone, finished_bind]
        simp only [finished_pure, implies_true, and_true]
      · intro sections
        rw [if_neg hstop, outcome_bind_of_done (outcome_advance _ _), outcome_bind_of_done hnamedone,
          outcome_bind_eq_done]
        simp only [outcome_pure, Outcome.done.injEq, eq_comm]
    · have hstop : (buffer.length : ℤ) < size.offset + size.value.toInt := by omega
      rw [if_pos hstop]
      exact .inl ⟨fun h => hfits h.2, ⟨h.sound_readNext, hsound, sound_thrown _⟩, _, rfl⟩
  · refine .inl ⟨fun h => hends h.1, ⟨h.sound_readNext, ?_⟩, error, ?_⟩
    · rw [sound_bind, hthrown]
      exact ⟨hsound, fun _ h => (by cases h)⟩
    · change (andThen _ _).outcome = _
      rw [andThen, hthrown]

theorem sectioned_cons_iff {id : UInt8} {rest : List UInt8} {parts : List (UInt8 × List UInt8)} :
    Sectioned (id :: rest) parts ↔ (EndsWithin 4 rest ∧ (field rest).1.toNat ≤ (field rest).2.length) ∧
      ∃ later, Sectioned ((field rest).2.drop (field rest).1.toNat) later ∧ parts = (id, subsectionBytes rest) :: later := by
  constructor
  · rintro ⟨⟩
    exact ⟨⟨‹_›, ‹_›⟩, _, ‹_›, rfl⟩
  · rintro ⟨⟨hends, hfits⟩, later, hlater, rfl⟩
    exact .cons hends hfits hlater

theorem walkSections_sound (fuel : ℕ) (h : At buffer bytes offset) :
    (walkSections replaceInvalid buffer fuel offset).Sound ∧
      (bytes.length < fuel → (walkSections replaceInvalid buffer fuel offset).Finished) := by
  induction fuel generalizing bytes offset with
  | zero => exact ⟨sound_unfinished, fun h => absurd h (Nat.not_lt_zero _)⟩
  | succ fuel ih =>
    cases bytes with
    | nil =>
      rw [walkSections, if_pos (h.at_end.mpr rfl)]
      exact ⟨sound_pure _, fun _ => finished_pure _⟩
    | cons id rest =>
      obtain ⟨-, hsound, error, herror⟩ | ⟨-, offset', parsed, hat, -, hsound, hfinished, -⟩ :=
        walkSections_cons replaceInvalid h fuel
      · refine ⟨hsound, fun _ => ?_⟩
        rw [Finished, herror]
        intro h
        cases h
      · obtain ⟨hlater, hends⟩ := ih hat
        rw [hsound, hfinished]
        refine ⟨hlater, fun hfuel => hends ?_⟩
        have hshort := length_fieldFrom_le 0 rest
        change (field rest).2.length ≤ rest.length at hshort
        rw [List.length_cons] at hfuel
        rw [List.length_drop]
        omega

theorem sectioned_of_walkSections (fuel : ℕ) (h : At buffer bytes offset) {sections : List WasmSection}
    (hdone : (walkSections replaceInvalid buffer fuel offset).outcome = .done sections) :
    ∃ parts, Sectioned bytes parts ∧ List.Forall₂ (Describes replaceInvalid) parts sections := by
  induction fuel generalizing bytes offset sections with
  | zero => cases hdone
  | succ fuel ih =>
    cases bytes with
    | nil =>
      rw [walkSections, if_pos (h.at_end.mpr rfl)] at hdone
      cases hdone
      exact ⟨[], .nil, .nil⟩
    | cons id rest =>
      obtain ⟨-, -, error, herror⟩ | ⟨⟨hends, hfits⟩, offset', parsed, hat, hdescribes, -, -, hiff⟩ :=
        walkSections_cons replaceInvalid h fuel
      · rw [herror] at hdone
        cases hdone
      · obtain ⟨later, hlater, rfl⟩ := (hiff _).mp hdone
        obtain ⟨parts, hparts, hall⟩ := ih hat hlater
        exact ⟨_, .cons hends hfits hparts, .cons hdescribes hall⟩

theorem walkSections_of_sectioned (fuel : ℕ) (h : At buffer bytes offset) {parts : List (UInt8 × List UInt8)}
    (hparts : Sectioned bytes parts) (hfinished : (walkSections replaceInvalid buffer fuel offset).Finished) :
    ∃ sections, (walkSections replaceInvalid buffer fuel offset).outcome = .done sections ∧
      List.Forall₂ (Describes replaceInvalid) parts sections := by
  induction fuel generalizing bytes offset parts with
  | zero => exact absurd hfinished not_finished_unfinished
  | succ fuel ih =>
    cases bytes with
    | nil =>
      cases hparts
      refine ⟨[], ?_, .nil⟩
      rw [walkSections, if_pos (h.at_end.mpr rfl)]
      rfl
    | cons id rest =>
      obtain ⟨hwell, later, hlater, rfl⟩ := sectioned_cons_iff.mp hparts
      obtain ⟨hnot, -⟩ | ⟨-, offset', parsed, hat, hdescribes, -, hiff, hdone⟩ :=
        walkSections_cons replaceInvalid h fuel
      · exact absurd hwell hnot
      · obtain ⟨sections, hsections, hall⟩ := ih hat hlater (hiff.mp hfinished)
        exact ⟨parsed :: sections, (hdone _).mpr ⟨sections, hsections, rfl⟩, .cons hdescribes hall⟩

theorem length_of_sectioned {parts : List (UInt8 × List UInt8)} (h : Sectioned bytes parts) :
    ∀ part ∈ parts, part.2.length ≤ bytes.length := by
  induction h with
  | nil => simp
  | @cons id rest parts ends fits behind ih =>
    have hshort := length_fieldFrom_le 0 rest
    change (field rest).2.length ≤ rest.length at hshort
    rw [List.forall_mem_cons]
    constructor
    · rw [subsectionBytes, List.length_take, List.length_cons]
      omega
    · intro part hpart
      have hlater := ih part hpart
      rw [List.length_drop] at hlater
      rw [List.length_cons]
      omega

end Sections

section Contract

variable (replaceInvalid : List UInt8 → List Char)

def SectionSmall (part : UInt8 × List UInt8) : Prop :=
  (part.1 = 7 → ExportSectionSmall part.2) ∧
    (part.1 = 0 → customName replaceInvalid part.2 = "name".toList → SubsectionsSmall part.2)

theorem parseSection_small {part : UInt8 × List UInt8} {parsed : WasmSection}
    (h : Describes replaceInvalid part parsed) (hsmall : SectionSmall replaceInvalid part) (fuel : ℕ)
    (contract : ParsedContract) :
    (parseSection replaceInvalid fuel parsed contract).Sound ∧
      (part.2.length < fuel → (parseSection replaceInvalid fuel parsed contract).Returns) := by
  unfold parseSection
  rw [h.id, h.data]
  simp only [Option.some.injEq]
  split_ifs with hexport htype hname
  · have hsound := (parseExportSection_sound replaceInvalid part.2).mpr (hsmall.1 hexport)
    rw [sound_bind]
    exact ⟨⟨hsound, fun _ _ => sound_pure _⟩, fun _ =>
      (returns_parseExportSection replaceInvalid part.2).bind fun _ => returns_pure _⟩
  · obtain ⟨hsound, hreturns⟩ := parseTypeSection_spec part.2
    rw [sound_bind]
    exact ⟨⟨hsound, fun _ _ => sound_pure _⟩, fun _ => hreturns.bind fun _ => returns_pure _⟩
  · have hsubsections := hsmall.2 hname.1 ((h.name hname.1).symm.trans hname.2)
    obtain ⟨hsound, hreturns⟩ :=
      subsectionLoop_small replaceInvalid hsubsections (.inl (At.start part.2)) fuel { }
    rw [sound_bind]
    exact ⟨⟨hsound, fun _ _ => sound_pure _⟩, fun hfuel => (hreturns hfuel).bind fun _ => returns_pure _⟩
  · exact ⟨sound_pure _, fun _ => returns_pure _⟩

theorem small_of_parseSection {part : UInt8 × List UInt8} {parsed : WasmSection}
    (h : Describes replaceInvalid part parsed) {fuel : ℕ} {contract : ParsedContract}
    (hsound : (parseSection replaceInvalid fuel parsed contract).Sound)
    (hfinished : (parseSection replaceInvalid fuel parsed contract).Finished) :
    SectionSmall replaceInvalid part ∧ (parseSection replaceInvalid fuel parsed contract).Returns := by
  unfold parseSection at hsound hfinished ⊢
  rw [h.id, h.data] at hsound hfinished ⊢
  simp only [Option.some.injEq] at hsound hfinished ⊢
  split_ifs at hsound hfinished ⊢ with hexport htype hname
  · rw [sound_bind] at hsound
    refine ⟨⟨fun _ => (parseExportSection_sound replaceInvalid part.2).mp hsound.1, ?_⟩, ?_⟩
    · intro hzero
      exact absurd (hexport.symm.trans hzero) (by decide)
    · exact (returns_parseExportSection replaceInvalid part.2).bind fun _ => returns_pure _
  · refine ⟨⟨fun h => absurd h hexport, fun hzero => absurd (htype.symm.trans hzero) (by decide)⟩, ?_⟩
    exact (parseTypeSection_spec part.2).2.bind fun _ => returns_pure _
  · rw [sound_bind] at hsound
    rw [finished_bind] at hfinished
    obtain ⟨hsmall, hreturns⟩ :=
      small_of_subsectionLoop replaceInvalid (.inl (At.start part.2)) hsound.1 hfinished.1
    exact ⟨⟨fun h => absurd h hexport, fun _ _ => hsmall⟩, hreturns.bind fun _ => returns_pure _⟩
  · refine ⟨⟨fun h => absurd h hexport, fun hzero htext => ?_⟩, returns_pure _⟩
    exact absurd ⟨hzero, (h.name hzero).trans htext⟩ hname

theorem parseSections_small {parts : List (UInt8 × List UInt8)} {sections : List WasmSection}
    (h : List.Forall₂ (Describes replaceInvalid) parts sections)
    (hsmall : ∀ part ∈ parts, SectionSmall replaceInvalid part) (fuel : ℕ) (contract : ParsedContract) :
    (parseSections replaceInvalid fuel sections contract).Sound ∧
      ((∀ part ∈ parts, part.2.length < fuel) →
        (parseSections replaceInvalid fuel sections contract).Returns) := by
  induction h generalizing contract with
  | nil => exact ⟨sound_pure _, fun _ => returns_pure _⟩
  | @cons part parsed parts sections hpart _ ih =>
    rw [List.forall_mem_cons] at hsmall
    obtain ⟨hsound, hreturns⟩ := parseSection_small replaceInvalid hpart hsmall.1 fuel contract
    rw [parseSections, sound_bind]
    refine ⟨⟨hsound, fun contract _ => (ih hsmall.2 contract).1⟩, fun hfuel => ?_⟩
    rw [List.forall_mem_cons] at hfuel
    exact (hreturns hfuel.1).bind fun contract => (ih hsmall.2 contract).2 hfuel.2

theorem small_of_parseSections {parts : List (UInt8 × List UInt8)} {sections : List WasmSection}
    (h : List.Forall₂ (Describes replaceInvalid) parts sections) {fuel : ℕ} {contract : ParsedContract}
    (hsound : (parseSections replaceInvalid fuel sections contract).Sound)
    (hfinished : (parseSections replaceInvalid fuel sections contract).Finished) :
    ∀ part ∈ parts, SectionSmall replaceInvalid part := by
  induction h generalizing contract with
  | nil => simp
  | @cons part parsed parts sections hpart _ ih =>
    rw [parseSections, sound_bind] at hsound
    rw [parseSections, finished_bind] at hfinished
    obtain ⟨hsmall, contract', hcontract⟩ := small_of_parseSection replaceInvalid hpart hsound.1 hfinished.1
    rw [List.forall_mem_cons]
    exact ⟨hsmall, ih (hsound.2 contract' hcontract) (hfinished.2 contract' hcontract)⟩

section Header

def wordAt (buffer : List UInt8) (offset : ℕ) : BitVec 32 :=
  wordByte buffer[offset]? 0 ||| wordByte buffer[offset + 1]? 8 ||| wordByte buffer[offset + 2]? 16 |||
    wordByte buffer[offset + 3]? 24

def HasHeader (buffer : List UInt8) : Prop :=
  8 ≤ buffer.length ∧ wordAt buffer 0 = 0x6d736100 ∧ wordAt buffer 4 = 1

theorem readWord_spec {buffer : List UInt8} {offset : ℕ} (h : offset + 4 ≤ buffer.length) :
    (readWord buffer offset).Sound ∧ (readWord buffer offset).outcome = .done (wordAt buffer offset) := by
  have hread : ∀ n : ℕ, (readNext buffer (n : ℤ) : Walk WasmError _).outcome = .done (buffer[n]?, ((n + 1 : ℕ) : ℤ)) := by
    intro n
    rw [readNext, if_pos (Int.natCast_nonneg n), Int.toNat_natCast, Nat.cast_succ]
  have hsound : ∀ n : ℕ, n < buffer.length → (readNext buffer (n : ℤ) : Walk WasmError _).Sound :=
    fun n hn => readNext_sound (Int.natCast_nonneg n) (by exact_mod_cast hn)
  rw [readWord, sound_bind_of_done (hread _), outcome_bind_of_done (hread _)]
  dsimp only
  rw [sound_bind_of_done (hread _), outcome_bind_of_done (hread _)]
  dsimp only
  rw [sound_bind_of_done (hread _), outcome_bind_of_done (hread _)]
  dsimp only
  rw [sound_bind_of_done (hread _), outcome_bind_of_done (hread _)]
  refine ⟨⟨hsound _ (by omega), hsound _ (by omega), hsound _ (by omega), hsound _ (by omega), sound_pure _⟩, rfl⟩

theorem parseModuleHeader_spec (buffer : List UInt8) :
    (parseModuleHeader buffer).Sound ∧
      ((¬ HasHeader buffer ∧ ∃ error, (parseModuleHeader buffer).outcome = .thrown error) ∨
        HasHeader buffer ∧ ∃ wasmModule, (parseModuleHeader buffer).outcome = .done (wasmModule, 8)) := by
  unfold parseModuleHeader
  split_ifs with hsize
  · exact ⟨sound_thrown _, .inl ⟨fun h => absurd h.1 (not_le.mpr hsize), _, rfl⟩⟩
  · obtain ⟨hmagic, hmagicdone⟩ := @readWord_spec buffer 0 (by omega)
    obtain ⟨hversion, hversiondone⟩ := @readWord_spec buffer 4 (by omega)
    rw [Nat.cast_zero] at hmagic hmagicdone
    rw [Nat.cast_ofNat] at hversion hversiondone
    rw [sound_bind_of_done hmagicdone, outcome_bind_of_done hmagicdone]
    split_ifs with hword
    · exact ⟨⟨hmagic, sound_thrown _⟩, .inl ⟨fun h => hword h.2.1, _, rfl⟩⟩
    · rw [sound_bind_of_done hversiondone, outcome_bind_of_done hversiondone]
      split_ifs with hone
      · exact ⟨⟨hmagic, hversion, sound_thrown _⟩, .inl ⟨fun h => hone h.2.2, _, rfl⟩⟩
      · exact ⟨⟨hmagic, hversion, sound_pure _⟩,
          .inr ⟨⟨not_lt.mp hsize, not_not.mp hword, not_not.mp hone⟩, _, rfl⟩⟩

end Header

/-- The parser comes to an end, its cursors never go back and never read outside their arrays. -/
def Total (buffer : List UInt8) : Prop :=
  (∃ fuel, (parseContractWasm replaceInvalid fuel buffer).Finished) ∧
    ∀ fuel, (parseContractWasm replaceInvalid fuel buffer).Sound

/-- No length that moves a cursor has its highest bit set, in any section of a module that is taken apart. -/
def LengthsSmall (buffer : List UInt8) : Prop :=
  buffer.length ≤ maxModuleSize → HasHeader buffer →
    ∀ parts, Sectioned (buffer.drop 8) parts → ∀ part ∈ parts, SectionSmall replaceInvalid part

theorem at_header {buffer : List UInt8} (h : HasHeader buffer) : At buffer (buffer.drop 8) 8 :=
  (At.start buffer).advance h.1

theorem total_of_small {buffer : List UInt8} (h : LengthsSmall replaceInvalid buffer) : Total replaceInvalid buffer := by
  unfold Total parseContractWasm
  split_ifs with hsize
  · exact ⟨⟨0, finished_thrown _⟩, fun _ => sound_thrown _⟩
  · obtain ⟨hheader, ⟨-, error, herror⟩ | ⟨hhas, wasmModule, hdone⟩⟩ := parseModuleHeader_spec buffer
    · refine ⟨⟨0, ?_⟩, fun fuel => ?_⟩
      · rw [finished_bind, Finished, herror]
        exact ⟨fun h => (by cases h), fun _ h => (by cases h)⟩
      · rw [sound_bind, herror]
        exact ⟨hheader, fun _ h => by cases h⟩
    · have hat := at_header hhas
      have hparts := h (not_lt.mp hsize) hhas
      have hcontract : ∀ fuel sections contract,
          (walkSections replaceInvalid buffer fuel 8).outcome = .done sections →
          (parseSections replaceInvalid fuel sections contract).Sound ∧
            (buffer.length < fuel → (parseSections replaceInvalid fuel sections contract).Returns) := by
        intro fuel sections contract hsections
        obtain ⟨parts, hsectioned, hall⟩ := sectioned_of_walkSections replaceInvalid fuel hat hsections
        obtain ⟨hsound, hreturns⟩ :=
          parseSections_small replaceInvalid hall (hparts parts hsectioned) fuel contract
        refine ⟨hsound, fun hfuel => hreturns fun part hpart => ?_⟩
        have hlength := length_of_sectioned hsectioned part hpart
        rw [List.length_drop] at hlength
        omega
      constructor
      · refine ⟨buffer.length + 1, ?_⟩
        rw [finished_bind_of_done hdone]
        dsimp only
        rw [finished_bind]
        refine ⟨(walkSections_sound replaceInvalid _ hat).2 ?_, fun sections hsections => ?_⟩
        · rw [List.length_drop]
          omega
        · rw [finished_bind]
          exact ⟨((hcontract _ sections _ hsections).2 (Nat.lt_succ_self _)).finished, fun _ _ => finished_pure _⟩
      · intro fuel
        rw [sound_bind_of_done hdone]
        dsimp only
        rw [sound_bind]
        refine ⟨hheader, (walkSections_sound replaceInvalid fuel hat).1, fun sections hsections => ?_⟩
        rw [sound_bind]
        exact ⟨(hcontract fuel sections _ hsections).1, fun _ _ => sound_pure _⟩

theorem small_of_total {buffer : List UInt8} (h : Total replaceInvalid buffer) : LengthsSmall replaceInvalid buffer := by
  intro hsize hhas parts hparts
  obtain ⟨⟨fuel, hfinished⟩, hsound⟩ := h
  have hsound := hsound fuel
  obtain ⟨-, ⟨hnot, -⟩ | ⟨-, wasmModule, hdone⟩⟩ := parseModuleHeader_spec buffer
  · exact absurd hhas hnot
  · rw [parseContractWasm, if_neg (not_lt.mpr hsize), finished_bind_of_done hdone] at hfinished
    rw [parseContractWasm, if_neg (not_lt.mpr hsize), sound_bind_of_done hdone] at hsound
    dsimp only at hfinished hsound
    rw [finished_bind] at hfinished
    rw [sound_bind] at hsound
    obtain ⟨hwalk, hrest⟩ := hfinished
    obtain ⟨sections, hsections, hall⟩ :=
      walkSections_of_sectioned replaceInvalid fuel (at_header hhas) hparts hwalk
    have hparse := hrest sections hsections
    have hparsesound := hsound.2.2 sections hsections
    rw [finished_bind] at hparse
    rw [sound_bind] at hparsesound
    exact small_of_parseSections replaceInvalid hall hparsesound.1 hparse.1

end Contract

section Endless

def endlessNames : List UInt8 :=
  [4, 110, 97, 109, 101] ++ List.replicate 107 0 ++ [0, 0xfa, 0xff, 0xff, 0xff, 0x0f]

def endlessModule : List UInt8 := [0, 0x61, 0x73, 0x6d, 1, 0, 0, 0, 0, 118] ++ endlessNames

theorem at_endless : At endlessNames [0, 0xfa, 0xff, 0xff, 0xff, 0x0f] 112 :=
  ⟨[4, 110, 97, 109, 101] ++ List.replicate 107 0, rfl, rfl⟩

theorem endless_from (fuel : ℕ) (result : NameMap) :
    ¬ (subsectionLoop (fun _ => []) endlessNames fuel 112 result).Finished := by
  induction fuel generalizing result with
  | zero => exact not_finished_unfinished
  | succ fuel ih =>
    obtain ⟨size, result', hvalue, hat, -, -, houtcome⟩ :=
      subsectionLoop_cons (fun _ => []) at_endless fuel result
    have hsize : size.value.toInt = -6 := by
      rw [hvalue]
      decide
    have hoffset : size.offset = 118 := by
      have hlength := hat.add_length
      have hrest : (field [0xfa, 0xff, 0xff, 0xff, 0x0f]).2 = [] := by decide
      have htotal : endlessNames.length = 118 := by decide
      rw [hrest, htotal, List.length_nil] at hlength
      omega
    rw [Finished, houtcome, hsize, hoffset]
    exact ih result'

theorem endless_names (fuel : ℕ) : ¬ (parseNameSection (fun _ => []) fuel endlessNames).Finished := by
  cases fuel with
  | zero => exact not_finished_unfinished
  | succ fuel =>
    obtain ⟨size, result', hvalue, hat, -, -, houtcome⟩ :=
      subsectionLoop_cons (fun _ => []) (At.start endlessNames) fuel { }
    have hsize : size.value.toInt = 110 := by
      rw [hvalue]
      decide
    have hoffset : size.offset = 2 := by
      have hlength := hat.add_length
      have hrest : (field endlessNames.tail).2.length = 116 := by decide
      have htotal : endlessNames.length = 118 := by decide
      change size.offset + ((field endlessNames.tail).2.length : ℤ) = _ at hlength
      rw [hrest, htotal] at hlength
      omega
    rw [parseNameSection, Finished, houtcome, hsize, hoffset]
    exact endless_from fuel result'

theorem sectioned_endlessModule : Sectioned (endlessModule.drop 8) [(0, endlessNames)] := by
  have hbytes : endlessNames = subsectionBytes (118 :: endlessNames) := by decide
  have hdrop : (field (118 :: endlessNames)).2.drop (field (118 :: endlessNames)).1.toNat = [] := by decide
  have hends : EndsWithin 4 (118 :: endlessNames) := fun h => absurd h (by decide)
  have hsectioned : Sectioned (0 :: 118 :: endlessNames) [(0, subsectionBytes (118 :: endlessNames))] := by
    apply Sectioned.cons hends (by decide)
    rw [hdrop]
    exact .nil
  rw [← hbytes] at hsectioned
  exact hsectioned

theorem endless_module (fuel : ℕ) : ¬ (parseContractWasm (fun _ => []) fuel endlessModule).Finished := by
  intro hfinished
  have hlength : endlessModule.length = 128 := rfl
  have hhas : HasHeader endlessModule := ⟨by omega, by decide, by decide⟩
  have hsize : ¬ maxModuleSize < endlessModule.length := by
    rw [hlength, maxModuleSize]
    norm_num
  obtain ⟨-, ⟨hnot, -⟩ | ⟨-, wasmModule, hdone⟩⟩ := parseModuleHeader_spec endlessModule
  · exact hnot hhas
  · rw [parseContractWasm, if_neg hsize, finished_bind_of_done hdone] at hfinished
    dsimp only at hfinished
    rw [finished_bind] at hfinished
    obtain ⟨sections, hsections, hall⟩ :=
      walkSections_of_sectioned (fun _ => []) fuel (at_header hhas) sectioned_endlessModule hfinished.1
    obtain ⟨parsed, hdescribes, rfl⟩ : ∃ parsed, Describes (fun _ => []) (0, endlessNames) parsed ∧
        sections = [parsed] := by
      cases hall with
      | cons h hrest =>
        cases hrest
        exact ⟨_, h, rfl⟩
    have hparse := hfinished.2 [parsed] hsections
    rw [parseSections, finished_bind, finished_bind, parseSection, hdescribes.id, hdescribes.data,
      if_neg (by decide), if_neg (by decide), if_pos, finished_bind] at hparse
    · exact endless_names fuel hparse.1.1.1
    · refine ⟨rfl, (hdescribes.name rfl).trans ?_⟩
      decide +kernel

end Endless

theorem parsing_total_iff (replaceInvalid : List UInt8 → List Char) (buffer : List UInt8) :
    Total replaceInvalid buffer ↔ LengthsSmall replaceInvalid buffer :=
  ⟨small_of_total replaceInvalid, total_of_small replaceInvalid⟩

theorem endless_module_not_total : ¬ Total (fun _ => []) endlessModule := fun h => h.1.elim endless_module

end CrashLab.WasmParse
