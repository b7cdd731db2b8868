import CrashLab.WasmSections

namespace CrashLab.WasmParse

open CursorWalks Walk

section Fields

def fieldFrom (shift : ℕ) : List UInt8 → BitVec 32 × List UInt8
  | [] => (0, [])
  | byte :: rest =>
    if continues byte then (lebBits byte shift ||| (fieldFrom (shift + 7) rest).1, (fieldFrom (shift + 7) rest).2)
    else (lebBits byte shift, rest)

attribute [grind =] fieldFrom

def field (bytes : List UInt8) : BitVec 32 × List UInt8 := fieldFrom 0 bytes

def EndsWithin : ℕ → List UInt8 → Prop
  | 0, _ => False
  | _, [] => False
  | n + 1, byte :: rest => continues byte = true → EndsWithin n rest

theorem length_fieldFrom_le (shift : ℕ) (bytes : List UInt8) : (fieldFrom shift bytes).2.length ≤ bytes.length := by
  induction bytes generalizing shift with
  | nil => exact le_rfl
  | cons byte rest ih =>
    rw [fieldFrom]
    split_ifs
    · exact (ih (shift + 7)).trans (Nat.le_succ _)
    · exact Nat.le_succ _

theorem lebBits_lt {byte : UInt8} {shift : ℕ} (h : shift ≤ 21) : (lebBits byte shift).toNat < 2 ^ 28 := by
  have hbyte : ((byte &&& 0x7f).toBitVec.setWidth 32).toNat < 2 ^ 7 := by
    rw [BitVec.toNat_setWidth, UInt8.toNat_toBitVec, UInt8.toNat_and]
    have hand : byte.toNat &&& 127 ≤ 127 := Nat.and_le_right
    change (byte.toNat &&& 127) % 2 ^ 32 < 2 ^ 7
    omega
  rw [lebBits, BitVec.toNat_shiftLeft, Nat.mod_eq_of_lt (by omega : shift < 32), Nat.shiftLeft_eq]
  have hpow : 2 ^ shift ≤ 2 ^ 21 := Nat.pow_le_pow_right (by norm_num) h
  calc _ ≤ ((byte &&& 0x7f).toBitVec.setWidth 32).toNat * 2 ^ shift := Nat.mod_le _ _
    _ < 2 ^ 7 * 2 ^ 21 := by
      apply Nat.mul_lt_mul_of_lt_of_le hbyte hpow
      norm_num
    _ = 2 ^ 28 := by norm_num

theorem fieldFrom_lt {n shift : ℕ} {bytes : List UInt8} (h : EndsWithin n bytes) (hn : shift + 7 * n ≤ 28) :
    (fieldFrom shift bytes).1.toNat < 2 ^ 28 := by
  induction bytes generalizing n shift with
  | nil => cases n <;> exact False.elim h
  | cons byte rest ih =>
    cases n with
    | zero => exact False.elim h
    | succ n =>
      have hbits : (lebBits byte shift).toNat < 2 ^ 28 := lebBits_lt (by omega)
      rw [fieldFrom]
      split_ifs with hcontinues
      · rw [BitVec.toNat_or]
        exact Nat.or_lt_two_pow hbits (ih (h hcontinues) (by omega))
      · exact hbits

theorem toInt_of_lt {value : BitVec 32} (h : value.toNat < 2 ^ 31) : value.toInt = value.toNat := by
  rw [BitVec.toInt_eq_toNat_cond, if_pos (by omega)]

theorem toInt_nonneg_iff {value : BitVec 32} : 0 ≤ value.toInt ↔ value.toNat < 2 ^ 31 := by
  have := value.isLt
  rw [BitVec.toInt_eq_toNat_cond]
  split_ifs <;> omega

end Fields

section Numbers

variable {data rest : List UInt8} {offset : ℤ}

theorem lebLoop_cons (style : LebStyle) (byte : UInt8) (value : BitVec 32) (shift : ℕ) (last : Option UInt8) :
    lebLoop style data (byte :: rest) offset value shift last = (do
      let next ← readNext data offset
      match style.overflow (shift + 7) with
      | some error => .thrown error
      | none =>
        if continues byte then lebLoop style data rest next.2 (value ||| lebBits byte shift) (shift + 7) (some byte)
        else pure { value := value ||| lebBits byte shift, offset := next.2, shift := shift + 7, last := some byte }) :=
  rfl

theorem lebLoop_stopping (h : At data rest offset) (value : BitVec 32) (shift : ℕ) (last : Option UInt8) :
    (lebLoop stopping data rest offset value shift last).Sound ∧
      ∃ leb, (lebLoop stopping data rest offset value shift last).outcome = .done leb ∧
        leb.value = value ||| (fieldFrom shift rest).1 ∧ At data (fieldFrom shift rest).2 leb.offset := by
  induction rest generalizing offset value shift last with
  | nil => exact ⟨sound_pure _, _, rfl, by simp [fieldFrom], h⟩
  | cons byte rest ih =>
    have hread := h.outcome_readNext (ε := WasmError)
    have hoverflow : stopping.overflow (shift + 7) = none := rfl
    rw [lebLoop_cons, sound_bind_of_done hread, outcome_bind_of_done hread, fieldFrom]
    simp only [hoverflow]
    split_ifs with hcontinues
    · obtain ⟨hsound, leb, hleb, hvalue, hat⟩ := ih h.next (value ||| lebBits byte shift) (shift + 7) (some byte)
      refine ⟨⟨h.sound_readNext, hsound⟩, leb, hleb, ?_, hat⟩
      rw [hvalue, BitVec.or_assoc]
    · exact ⟨⟨h.sound_readNext, sound_pure _⟩, _, rfl, rfl, h.next⟩

theorem readLeb_stopping (h : At data rest offset) :
    (readLeb stopping data offset).Sound ∧
      ∃ leb, (readLeb stopping data offset).outcome = .done leb ∧ leb.value = (field rest).1 ∧
        At data (field rest).2 leb.offset := by
  rw [readLeb, if_neg (not_lt.mpr h.nonneg), h.drop_eq]
  obtain ⟨hsound, leb, hleb, hvalue, hat⟩ := lebLoop_stopping h 0 0 none
  refine ⟨hsound, leb, hleb, ?_, hat⟩
  rw [hvalue, field]
  exact BitVec.zero_or

theorem returns_lebLoop (data rest : List UInt8) (offset : ℤ) (value : BitVec 32) (shift : ℕ) (last : Option UInt8) :
    (lebLoop stopping data rest offset value shift last).Returns := by
  induction rest generalizing offset value shift last with
  | nil => exact returns_pure _
  | cons byte rest ih =>
    have hoverflow : stopping.overflow (shift + 7) = none := rfl
    rw [lebLoop_cons]
    apply (returns_readNext data offset).bind
    intro next
    simp only [hoverflow]
    split_ifs
    · exact ih _ _ _ _
    · exact returns_pure _

theorem returns_readLeb (data : List UInt8) (offset : ℤ) : (readLeb stopping data offset).Returns := by
  unfold readLeb
  split_ifs
  · exact (returns_readNext data offset).bind fun _ => returns_pure _
  · exact returns_lebLoop ..

theorem lebLoop_sectionSize (h : At data rest offset) (value : BitVec 32) {n shift : ℕ} (hn : shift + 7 * n = 28)
    (last : Option UInt8) :
    (lebLoop sectionSize data rest offset value shift last).Sound ∧
      ((EndsWithin n rest ∧ ∃ leb, (lebLoop sectionSize data rest offset value shift last).outcome = .done leb ∧
          leb.value = value ||| (fieldFrom shift rest).1 ∧ At data (fieldFrom shift rest).2 leb.offset) ∨
        ¬ EndsWithin n rest ∧ ∃ error, (lebLoop sectionSize data rest offset value shift last).outcome =
          .thrown error) := by
  induction rest generalizing offset value n shift last with
  | nil => exact ⟨sound_thrown _, .inr ⟨by cases n <;> exact id, _, rfl⟩⟩
  | cons byte rest ih =>
    have hread := h.outcome_readNext (ε := WasmError)
    rw [lebLoop_cons, sound_bind_of_done hread, outcome_bind_of_done hread, fieldFrom]
    cases n with
    | zero =>
      have hoverflow : sectionSize.overflow (shift + 7) = some .sectionSizeOverflow := if_pos (by omega)
      simp only [hoverflow]
      exact ⟨⟨h.sound_readNext, sound_thrown _⟩, .inr ⟨id, _, rfl⟩⟩
    | succ n =>
      have hoverflow : sectionSize.overflow (shift + 7) = none := if_neg (by omega)
      simp only [hoverflow]
      have hn' : shift + 7 + 7 * n = 28 := by omega
      split_ifs with hcontinues
      · obtain ⟨hsound, hcases⟩ := ih h.next (value ||| lebBits byte shift) hn' (some byte)
        refine ⟨⟨h.sound_readNext, hsound⟩, ?_⟩
        obtain ⟨hends, leb, hleb, hvalue, hat⟩ | ⟨hends, error, herror⟩ := hcases
        · refine .inl ⟨fun _ => hends, leb, hleb, ?_, hat⟩
          rw [hvalue, BitVec.or_assoc]
        · exact .inr ⟨fun hends' => hends (hends' hcontinues), error, herror⟩
      · exact ⟨⟨h.sound_readNext, sound_pure _⟩, .inl ⟨fun h => absurd h hcontinues, _, rfl, rfl, h.next⟩⟩

theorem readLeb_sectionSize (h : At data rest offset) :
    (readLeb sectionSize data offset).Sound ∧
      ((EndsWithin 4 rest ∧ ∃ leb, (readLeb sectionSize data offset).outcome = .done leb ∧
          leb.value = (field rest).1 ∧ At data (field rest).2 leb.offset) ∨
        ¬ EndsWithin 4 rest ∧ ∃ error, (readLeb sectionSize data offset).outcome = .thrown error) := by
  rw [readLeb, if_neg (not_lt.mpr h.nonneg), h.drop_eq]
  obtain ⟨hsound, hcases⟩ := lebLoop_sectionSize h 0 (by norm_num : 0 + 7 * 4 = 28) none
  refine ⟨hsound, hcases.imp_left ?_⟩
  rintro ⟨hends, leb, hleb, hvalue, hat⟩
  refine ⟨hends, leb, hleb, ?_, hat⟩
  rw [hvalue, field]
  exact BitVec.zero_or

section Readers

end Readers

end Numbers

section Conditions

def ExportsSmall : ℕ → List UInt8 → Prop
  | 0, _ => True
  | count + 1, bytes =>
    (field bytes).1.toNat < 2 ^ 31 ∧
      match (field bytes).2.drop (field bytes).1.toNat with
      | [] => True
      | _ :: behind => ExportsSmall count (field behind).2

def FunctionNamesSmall : ℕ → List UInt8 → Prop
  | 0, _ => True
  | count + 1, bytes =>
    (field (field bytes).2).1.toNat < 2 ^ 31 ∧
      FunctionNamesSmall count
        (if (field (field bytes).2).1.toNat ≤ (field (field bytes).2).2.length then
          (field (field bytes).2).2.drop (field (field bytes).2).1.toNat
        else (field (field bytes).2).2)

def vectorLength (bytes : List UInt8) : ℕ := (field bytes).1.toInt.toNat

def ExportSectionSmall (data : List UInt8) : Prop := ExportsSmall (vectorLength data) (field data).2

def subsectionBytes (bytes : List UInt8) : List UInt8 := (field bytes).2.take (field bytes).1.toNat

inductive SubsectionsSmall : List UInt8 → Prop
  | nil : SubsectionsSmall []
  | cons {kind : UInt8} {rest : List UInt8} (size : (field rest).1.toNat < 2 ^ 31)
      (names : kind = 1 →
        FunctionNamesSmall (vectorLength (subsectionBytes rest)) (field (subsectionBytes rest)).2)
      (behind : SubsectionsSmall ((field rest).2.drop (field rest).1.toNat)) : SubsectionsSmall (kind :: rest)

end Conditions

section Walkers

variable (replaceInvalid : List UInt8 → List Char) {data bytes : List UInt8} {offset : ℤ}

theorem returns_exportLoop (data : List UInt8) (count : ℕ) (offset : ℤ) :
    (exportLoop replaceInvalid data count offset).Returns := by
  induction count generalizing offset with
  | zero => exact returns_pure _
  | succ count ih =>
    rw [exportLoop]
    apply (returns_readLeb data offset).bind
    intro nameLen
    dsimp only
    split_ifs
    · exact returns_pure _
    · apply (returns_advance _ _).bind
      intro offset
      split_ifs
      · exact returns_pure _
      · apply (returns_readNext data offset).bind
        intro kind
        apply (returns_readLeb data _).bind
        intro index
        exact (ih _).bind fun _ => returns_pure _

theorem advance_at (h : At data bytes offset) {length : BitVec 32} (hlength : length.toNat < 2 ^ 31)
    (hle : length.toNat ≤ bytes.length) : At data (bytes.drop length.toNat) (offset + length.toInt) := by
  rw [toInt_of_lt hlength]
  exact h.advance hle

theorem exportLoop_sound (count : ℕ) (h : At data bytes offset) :
    (exportLoop replaceInvalid data count offset).Sound ↔ ExportsSmall count bytes := by
  induction count generalizing bytes offset with
  | zero => exact iff_of_true (sound_pure _) trivial
  | succ count ih =>
    obtain ⟨hsound, nameLen, hdone, hvalue, hat⟩ := readLeb_stopping h
    rw [exportLoop, sound_bind_of_done hdone, ExportsSmall, ← hvalue]
    simp only [hsound, true_and]
    have hlength := hat.add_length
    by_cases hsmall : nameLen.value.toNat < 2 ^ 31
    · have hint := toInt_of_lt hsmall
      simp only [hsmall, true_and]
      split_ifs with hstop
      · rw [List.drop_of_length_le (by omega)]
        simp
      · have hmoved := advance_at hat hsmall (by omega)
        rw [sound_bind_of_done (outcome_advance _ _), sound_advance]
        cases hrest : (field bytes).2.drop nameLen.value.toNat with
        | nil =>
          rw [hrest] at hmoved
          rw [if_pos (hmoved.at_end.mpr rfl)]
          simp only [sound_pure, and_true, iff_true]
          omega
        | cons kind behind =>
          rw [hrest] at hmoved
          rw [if_neg (fun h => absurd (hmoved.at_end.mp h) (List.cons_ne_nil _ _)),
            sound_bind_of_done hmoved.outcome_readNext]
          obtain ⟨hindex, index, hindexdone, hindexvalue, hindexat⟩ := readLeb_stopping hmoved.next
          dsimp only
          rw [sound_bind_of_done hindexdone]
          obtain ⟨exports, hexports⟩ := returns_exportLoop replaceInvalid data count index.offset
          rw [sound_bind_of_done hexports, ih hindexat]
          simp only [hmoved.sound_readNext, hindex, sound_pure, true_and, and_true, and_iff_right_iff_imp]
          omega
    · have hneg : nameLen.value.toInt < 0 := by
        rw [← not_le, toInt_nonneg_iff]
        exact hsmall
      have hfits : ¬ (data.length : ℤ) < nameLen.offset + nameLen.value.toInt := by omega
      simp only [hsmall, false_and, iff_false, if_neg hfits]
      rw [sound_bind_of_done (outcome_advance _ _), sound_advance]
      exact fun h => absurd h.1 (not_le.mpr hneg)

theorem parseExportSection_sound (data : List UInt8) :
    (parseExportSection replaceInvalid data).Sound ↔ ExportSectionSmall data := by
  obtain ⟨hsound, count, hdone, hvalue, hat⟩ := readLeb_stopping (At.start data)
  rw [parseExportSection, sound_bind_of_done hdone, exportLoop_sound replaceInvalid _ hat, ExportSectionSmall,
    vectorLength, ← hvalue]
  simp only [hsound, true_and]

theorem returns_parseExportSection (data : List UInt8) : (parseExportSection replaceInvalid data).Returns :=
  (returns_readLeb data 0).bind fun _ => returns_exportLoop ..

theorem valtypeLoop_spec (count : ℕ) (h : At data bytes offset) :
    (valtypeLoop data count offset).Sound ∧
      ∃ valtypes rest offset', (valtypeLoop data count offset).outcome = .done (valtypes, offset') ∧
        At data rest offset' := by
  induction count generalizing bytes offset with
  | zero => exact ⟨sound_pure _, [], bytes, offset, rfl, h⟩
  | succ count ih =>
    rw [valtypeLoop]
    split_ifs with hend
    · exact ⟨sound_pure _, [], bytes, offset, rfl, h⟩
    · cases bytes with
      | nil => exact absurd (h.at_end.mpr rfl) hend
      | cons valtype rest =>
        obtain ⟨hsound, valtypes, rest', offset', hdone, hat⟩ := ih h.next
        rw [sound_bind_of_done h.outcome_readNext, outcome_bind_of_done h.outcome_readNext]
        dsimp only
        rw [sound_bind_of_done hdone, outcome_bind_of_done hdone]
        exact ⟨⟨h.sound_readNext, hsound, sound_pure _⟩, _, rest', offset', rfl, hat⟩

theorem readValtypes_spec (h : At data bytes offset) :
    (readValtypes data offset).Sound ∧
      ∃ valtypes rest offset', (readValtypes data offset).outcome = .done (valtypes, offset') ∧ At data rest offset' := by
  obtain ⟨hsound, count, hdone, -, hat⟩ := readLeb_stopping h
  obtain ⟨hloop, valtypes, rest, offset', hvaltypes, hrest⟩ := valtypeLoop_spec count.value.toInt.toNat hat
  rw [readValtypes, sound_bind_of_done hdone, outcome_bind_of_done hdone]
  exact ⟨⟨hsound, hloop⟩, valtypes, rest, offset', hvaltypes, hrest⟩

theorem typeLoop_spec (count : ℕ) (h : At data bytes offset) :
    (typeLoop data count offset).Sound ∧ (typeLoop data count offset).Returns := by
  induction count generalizing bytes offset with
  | zero => exact ⟨sound_pure _, returns_pure _⟩
  | succ count ih =>
    rw [typeLoop]
    split_ifs with hend
    · exact ⟨sound_pure _, returns_pure _⟩
    · cases bytes with
      | nil => exact absurd (h.at_end.mpr rfl) hend
      | cons form rest =>
        obtain ⟨hparams, params, rest₁, offset₁, hparamsdone, hat₁⟩ := readValtypes_spec h.next
        obtain ⟨hresults, results, rest₂, offset₂, hresultsdone, hat₂⟩ := readValtypes_spec hat₁
        obtain ⟨hsound, types, htypes⟩ := ih hat₂
        rw [sound_bind_of_done (outcome_advance _ _), Returns, outcome_bind_of_done (outcome_advance _ _),
          sound_bind_of_done hparamsdone, outcome_bind_of_done hparamsdone]
        dsimp only
        rw [sound_bind_of_done hresultsdone, outcome_bind_of_done hresultsdone]
        dsimp only
        rw [sound_bind_of_done htypes, outcome_bind_of_done htypes, sound_advance]
        exact ⟨⟨zero_le_one, hparams, hresults, hsound, sound_pure _⟩, _, rfl⟩

theorem parseTypeSection_spec (data : List UInt8) :
    (parseTypeSection data).Sound ∧ (parseTypeSection data).Returns := by
  obtain ⟨hsound, count, hdone, -, hat⟩ := readLeb_stopping (At.start data)
  obtain ⟨hloop, hreturns⟩ := typeLoop_spec count.value.toInt.toNat hat
  rw [parseTypeSection, sound_bind_of_done hdone, Returns, outcome_bind_of_done hdone]
  exact ⟨⟨hsound, hloop⟩, hreturns⟩

theorem returns_functionNameLoop (data : List UInt8) (count : ℕ) (offset : ℤ) (result : NameMap) :
    (functionNameLoop replaceInvalid data count offset result).Returns := by
  induction count generalizing offset result with
  | zero => exact returns_pure _
  | succ count ih =>
    rw [functionNameLoop]
    apply (returns_readLeb data offset).bind
    intro funcIdx
    apply (returns_readLeb data _).bind
    intro nameLen
    dsimp only
    split_ifs
    · exact (returns_advance _ _).bind fun _ => ih _ _
    · exact ih _ _

theorem functionNameLoop_sound (count : ℕ) (h : At data bytes offset) (result : NameMap) :
    (functionNameLoop replaceInvalid data count offset result).Sound ↔ FunctionNamesSmall count bytes := by
  induction count generalizing bytes offset result with
  | zero => exact iff_of_true (sound_pure _) trivial
  | succ count ih =>
    obtain ⟨hindex, funcIdx, hindexdone, -, hindexat⟩ := readLeb_stopping h
    obtain ⟨hsound, nameLen, hdone, hvalue, hat⟩ := readLeb_stopping hindexat
    rw [functionNameLoop, sound_bind_of_done hindexdone, sound_bind_of_done hdone, FunctionNamesSmall, ← hvalue]
    simp only [hindex, hsound, true_and]
    have hlength := hat.add_length
    by_cases hsmall : nameLen.value.toNat < 2 ^ 31
    · have hint := toInt_of_lt hsmall
      simp only [hsmall, true_and]
      by_cases hfits : nameLen.value.toNat ≤ (field (field bytes).2).2.length
      · have hstop : nameLen.offset + nameLen.value.toInt ≤ data.length := by omega
        rw [if_pos hstop, if_pos hfits, sound_bind_of_done (outcome_advance _ _), sound_advance,
          ih (advance_at hat hsmall hfits)]
        exact and_iff_right (by omega)
      · have hstop : ¬ nameLen.offset + nameLen.value.toInt ≤ data.length := by omega
        rw [if_neg hstop, if_neg hfits, ih hat]
    · have hneg : nameLen.value.toInt < 0 := by
        rw [← not_le, toInt_nonneg_iff]
        exact hsmall
      have hstop : nameLen.offset + nameLen.value.toInt ≤ data.length := by omega
      simp only [hsmall, false_and, iff_false, if_pos hstop]
      rw [sound_bind_of_done (outcome_advance _ _), sound_advance]
      exact fun h => absurd h.1 (not_le.mpr hneg)

theorem returns_parseSubsection (kind : Option UInt8) (data : List UInt8) (result : NameMap) :
    (parseSubsection replaceInvalid kind data result).Returns := by
  unfold parseSubsection
  split_ifs
  · exact (returns_readLeb data 0).bind fun _ => returns_functionNameLoop ..
  · apply (returns_readLeb data 0).bind
    intro nameLen
    dsimp only
    split_ifs
    · exact returns_pure _
    · exact returns_pure _
  · exact returns_pure _

theorem parseSubsection_sound (kind : UInt8) (data : List UInt8) (result : NameMap) :
    (parseSubsection replaceInvalid (some kind) data result).Sound ↔
      (kind = 1 → FunctionNamesSmall (vectorLength data) (field data).2) := by
  obtain ⟨hsound, number, hdone, hvalue, hat⟩ := readLeb_stopping (At.start data)
  unfold parseSubsection
  simp only [Option.some.injEq]
  split_ifs with hnames hmodule
  · rw [parseFunctionNames, sound_bind_of_done hdone, functionNameLoop_sound replaceInvalid _ hat, vectorLength,
      ← hvalue]
    simp only [hsound, hnames, true_and, true_imp_iff]
  · rw [parseModuleName, sound_bind_of_done hdone]
    simp only [hsound, hnames, true_and, false_imp_iff, iff_true]
    split_ifs
    · exact sound_pure _
    · exact sound_pure _
  · simp only [hnames, false_imp_iff, sound_pure]

theorem slice_at (h : At data bytes offset) {length : BitVec 32} (hlength : length.toNat < 2 ^ 31) :
    slice data offset (offset + length.toInt) = bytes.take length.toNat := by
  rw [toInt_of_lt hlength]
  exact h.slice_eq

theorem subsectionLoop_cons {kind : UInt8} (h : At data (kind :: bytes) offset) (fuel : ℕ) (result : NameMap) :
    ∃ (size : Leb) (result' : NameMap), size.value = (field bytes).1 ∧ At data (field bytes).2 size.offset ∧
      (parseSubsection replaceInvalid (some kind)
        (slice data size.offset (size.offset + size.value.toInt)) result).outcome = .done result' ∧
      ((subsectionLoop replaceInvalid data (fuel + 1) offset result).Sound ↔
        0 ≤ size.value.toInt ∧
          (parseSubsection replaceInvalid (some kind)
            (slice data size.offset (size.offset + size.value.toInt)) result).Sound ∧
          (subsectionLoop replaceInvalid data fuel (size.offset + size.value.toInt) result').Sound) ∧
      (subsectionLoop replaceInvalid data (fuel + 1) offset result).outcome =
        (subsectionLoop replaceInvalid data fuel (size.offset + size.value.toInt) result').outcome := by
  obtain ⟨hsound, size, hdone, hvalue, hat⟩ := readLeb_stopping h.next
  obtain ⟨result', hresult⟩ := returns_parseSubsection replaceInvalid (some kind)
    (slice data size.offset (size.offset + size.value.toInt)) result
  refine ⟨size, result', hvalue, hat, hresult, ?_, ?_⟩
  · rw [subsectionLoop, if_neg (fun hend => absurd (h.at_end.mp hend) (List.cons_ne_nil _ _)),
      sound_bind_of_done h.outcome_readNext]
    dsimp only
    rw [sound_bind_of_done hdone, sound_bind_of_done (outcome_advance _ _), sound_bind_of_done hresult, sound_advance]
    simp only [h.sound_readNext, hsound, true_and]
  · rw [subsectionLoop, if_neg (fun hend => absurd (h.at_end.mp hend) (List.cons_ne_nil _ _)),
      outcome_bind_of_done h.outcome_readNext]
    dsimp only
    rw [outcome_bind_of_done hdone, outcome_bind_of_done (outcome_advance _ _), outcome_bind_of_done hresult]

theorem subsectionLoop_small (hsmall : SubsectionsSmall bytes) (h : AtOrPast data bytes offset) (fuel : ℕ)
    (result : NameMap) :
    (subsectionLoop replaceInvalid data fuel offset result).Sound ∧
      (bytes.length < fuel → (subsectionLoop replaceInvalid data fuel offset result).Returns) := by
  induction fuel generalizing bytes offset result with
  | zero => exact ⟨sound_unfinished, fun h => absurd h (Nat.not_lt_zero _)⟩
  | succ fuel ih =>
    cases hsmall with
    | nil =>
      rw [subsectionLoop, if_pos (h.at_end.mpr rfl)]
      exact ⟨sound_pure _, fun _ => returns_pure _⟩
    | @cons kind rest hsize names behind =>
      obtain ⟨size, result', hvalue, hat, -, hsound, houtcome⟩ :=
        subsectionLoop_cons replaceInvalid h.at_cons fuel result
      rw [← hvalue] at hsize behind
      have hint := toInt_of_lt hsize
      have hmoved := hat.advance_any size.value.toNat
      rw [← hint] at hmoved
      obtain ⟨hrest, hreturns⟩ := ih behind hmoved result'
      have hshort := length_fieldFrom_le 0 rest
      rw [hsound, Returns, houtcome, slice_at hat hsize, parseSubsection_sound]
      refine ⟨⟨by omega, ?_, hrest⟩, ?_⟩
      · intro hkind
        have hnames := names hkind
        rwa [subsectionBytes, ← hvalue] at hnames
      · intro hfuel
        apply hreturns
        rw [List.length_drop]
        change (field rest).2.length ≤ rest.length at hshort
        rw [List.length_cons] at hfuel
        omega

theorem small_of_subsectionLoop (h : AtOrPast data bytes offset) {fuel : ℕ} {result : NameMap}
    (hsound : (subsectionLoop replaceInvalid data fuel offset result).Sound)
    (hfinished : (subsectionLoop replaceInvalid data fuel offset result).Finished) :
    SubsectionsSmall bytes ∧ (subsectionLoop replaceInvalid data fuel offset result).Returns := by
  induction fuel generalizing bytes offset result with
  | zero => exact absurd hfinished not_finished_unfinished
  | succ fuel ih =>
    cases bytes with
    | nil =>
      rw [subsectionLoop, if_pos (h.at_end.mpr rfl)]
      exact ⟨.nil, returns_pure _⟩
    | cons kind rest =>
      obtain ⟨size, result', hvalue, hat, -, hiff, houtcome⟩ :=
        subsectionLoop_cons replaceInvalid h.at_cons fuel result
      obtain ⟨hnonneg, hnames, hbehind⟩ := hiff.mp hsound
      have hsize : size.value.toNat < 2 ^ 31 := toInt_nonneg_iff.mp hnonneg
      have hmoved := hat.advance_any size.value.toNat
      rw [← toInt_of_lt hsize] at hmoved
      rw [Finished, houtcome] at hfinished
      obtain ⟨hrest, hreturns⟩ := ih hmoved hbehind hfinished
      rw [slice_at hat hsize, parseSubsection_sound] at hnames
      rw [hvalue] at hsize hnames hrest
      rw [Returns, houtcome]
      exact ⟨.cons hsize hnames hrest, hreturns⟩

end Walkers

end CrashLab.WasmParse
