import CrashLab.WasmSignatures

namespace CrashLab.WasmParse

open CursorWalks Walk WasmFormat

section Loops

variable {data bytes rest : List UInt8} {offset : ℤ}

theorem continues_of_low {byte : UInt8} (low : byte.toNat < 128) : continues byte = false := by
  rw [Bool.eq_false_iff, ne_eq, continues_iff]
  omega

theorem lebLoop_terminated {style : LebStyle} (h : Terminated bytes) (hat : At data (bytes ++ rest) offset)
    (value : BitVec 32) {shift : ℕ} (last : Option UInt8)
    (hlimit : ∀ s ≤ shift + 7 * bytes.length, style.overflow s = none) :
    (lebLoop style data (bytes ++ rest) offset value shift last).outcome = .done
      { value := value ||| (fieldFrom shift (bytes ++ rest)).1
        offset := offset + bytes.length
        shift := shift + 7 * bytes.length
        last := bytes.getLast? } := by
  induction h generalizing offset value shift last with
  | @last byte low =>
    rw [List.singleton_append] at hat ⊢
    have hnone := hlimit (shift + 7) (by simp)
    rw [lebLoop_cons, outcome_bind_of_done hat.outcome_readNext, fieldFrom, continues_of_low low]
    simp only [hnone]
    rfl
  | @more byte bytes high behind ih =>
    rw [List.cons_append] at hat ⊢
    have hnone := hlimit (shift + 7) (by simp)
    have hlater : ∀ s ≤ shift + 7 + 7 * bytes.length, style.overflow s = none := by
      intro s hs
      apply hlimit
      rw [List.length_cons]
      omega
    have hlast : (byte :: bytes).getLast? = bytes.getLast? := by
      cases behind <;> rw [List.getLast?_cons_cons]
    rw [lebLoop_cons, outcome_bind_of_done hat.outcome_readNext, fieldFrom, if_pos (continues_iff.mpr high)]
    simp only [hnone, if_pos (continues_iff.mpr high)]
    rw [ih hat.next _ _ hlater, hlast, BitVec.or_assoc, List.length_cons, Nat.cast_succ]
    congr 2
    · ring
    · ring

theorem lebLoop_overflow {style : LebStyle} {limit : ℕ} {error : WasmError} (hstyle : style.limit = some (limit, error))
    (h : Terminated bytes) (hat : At data (bytes ++ rest) offset) (value : BitVec 32) {shift : ℕ}
    (last : Option UInt8) (hlimit : limit < shift + 7 * bytes.length) :
    ∃ error, (lebLoop style data (bytes ++ rest) offset value shift last).outcome = .thrown error := by
  have hoverflow : ∀ s, style.overflow s = if limit < s then some error else none := by
    intro s
    rw [LebStyle.overflow, hstyle]
  induction h generalizing offset value shift last with
  | @last byte low =>
    rw [List.singleton_append] at hat ⊢
    rw [List.length_singleton] at hlimit
    rw [lebLoop_cons, outcome_bind_of_done hat.outcome_readNext]
    simp only [hoverflow, if_pos (show limit < shift + 7 by omega)]
    exact ⟨_, rfl⟩
  | @more byte bytes high behind ih =>
    rw [List.cons_append] at hat ⊢
    rw [List.length_cons] at hlimit
    rw [lebLoop_cons, outcome_bind_of_done hat.outcome_readNext]
    by_cases hnow : limit < shift + 7
    · simp only [hoverflow, if_pos hnow]
      exact ⟨_, rfl⟩
    · simp only [hoverflow, if_neg hnow, if_pos (continues_iff.mpr high)]
      exact ih hat.next _ _ (by omega)

theorem readLeb_terminated {style : LebStyle} (h : Terminated bytes) (hat : At data (bytes ++ rest) offset)
    (hlimit : ∀ s ≤ 7 * bytes.length, style.overflow s = none) :
    (readLeb style data offset).outcome = .done
      { value := (field (bytes ++ rest)).1
        offset := offset + bytes.length
        shift := 7 * bytes.length
        last := bytes.getLast? } := by
  have hloop := @lebLoop_terminated data bytes rest offset style h hat 0 0 none (by rwa [Nat.zero_add])
  rw [readLeb, if_neg (not_lt.mpr hat.nonneg), hat.drop_eq, hloop, Nat.zero_add, field]
  congr 2
  exact BitVec.zero_or

theorem readLeb_overflow {style : LebStyle} {limit : ℕ} {error : WasmError} (hstyle : style.limit = some (limit, error))
    (h : Terminated bytes) (hat : At data (bytes ++ rest) offset) (hlimit : limit < 7 * bytes.length) :
    ∃ error, (readLeb style data offset).outcome = .thrown error := by
  rw [readLeb, if_neg (not_lt.mpr hat.nonneg), hat.drop_eq]
  exact lebLoop_overflow hstyle h hat 0 none (by rwa [Nat.zero_add])

theorem overflow_of_le {style : LebStyle} {limit : ℕ} {error : WasmError} (hstyle : style.limit = some (limit, error))
    {s : ℕ} (hs : s ≤ limit) : style.overflow s = none := by
  rw [LebStyle.overflow, hstyle]
  exact if_neg (not_lt.mpr hs)

end Loops

section Values

variable {bytes rest : List UInt8} {shift n : ℕ} {i : ℤ}

theorem lebBits_zero {byte : UInt8} (h : byte.toNat % 128 = 0) (shift : ℕ) : lebBits byte shift = 0 := by
  have hzero : byte &&& 0x7f = 0 := by
    apply UInt8.toNat_inj.mp
    rw [UInt8.toNat_and]
    exact (Nat.and_two_pow_sub_one_eq_mod byte.toNat 7).trans h
  rw [lebBits, hzero]
  exact BitVec.zero_shiftLeft _

theorem lebBits_shift (byte : UInt8) (shift : ℕ) : lebBits byte (shift + 32) = lebBits byte shift := by
  rw [lebBits, lebBits, Nat.add_mod_right]

theorem fieldFrom_small (h : Uleb n bytes) (hsmall : n <<< shift < 2 ^ 32) (rest : List UInt8) :
    fieldFrom shift (bytes ++ rest) = (BitVec.ofNat 32 (n <<< shift), rest) := by
  have hshort : ∀ {low m s : ℕ}, low ≤ m → m <<< s < 2 ^ 32 → 32 ≤ s → low = 0 := by
    intro low m s hle hlt hs
    have hpow : 2 ^ 32 ≤ 2 ^ s := Nat.pow_le_pow_right (by norm_num) hs
    rw [Nat.shiftLeft_eq] at hlt
    by_contra hne
    have : 1 * 2 ^ s ≤ m * 2 ^ s := Nat.mul_le_mul_right _ (by omega)
    omega
  have hbits : ∀ {byte : UInt8} {low m s : ℕ}, byte.toNat % 128 = low → low ≤ m → m <<< s < 2 ^ 32 →
      lebBits byte s = BitVec.ofNat 32 (low <<< s) := by
    intro byte low m s hbyte hle hlt
    by_cases hs : s < 32
    · rw [lebBits_eq hs, hbyte]
    · have hzero := hshort hle hlt (by omega)
      rw [lebBits_zero (hbyte.trans hzero), hzero, Nat.zero_shiftLeft]
      rfl
  induction h generalizing shift with
  | @last byte low =>
    rw [List.singleton_append, fieldFrom, continues_of_low low, hbits (Nat.mod_eq_of_lt low) le_rfl hsmall]
    rfl
  | @more byte n bytes high behind ih =>
    have hmore : byte.toNat < 256 := byte.toNat_lt
    have hsplit := low_or_high n shift (show byte.toNat - 128 < 2 ^ 7 by omega)
    have hrest : n <<< (shift + 7) < 2 ^ 32 := by
      rw [← hsplit] at hsmall
      exact lt_of_le_of_lt Nat.right_le_or hsmall
    rw [List.cons_append, fieldFrom, if_pos (continues_iff.mpr high), ih hrest,
      hbits (show byte.toNat % 128 = byte.toNat - 128 by omega) (show _ ≤ byte.toNat - 128 + 128 * n by omega) hsmall]
    dsimp only
    rw [← BitVec.ofNat_or, hsplit]

theorem toInt_lt (value : BitVec 32) : value.toInt < 2 ^ 31 := by
  have := value.isLt
  rw [BitVec.toInt_eq_toNat_cond]
  split_ifs <;> omega

theorem field_toInt_iff (h : Uleb n bytes) (rest : List UInt8) :
    (field (bytes ++ rest)).1.toInt = n ↔ n < 2 ^ 31 := by
  constructor
  · intro heq
    have := toInt_lt (field (bytes ++ rest)).1
    omega
  · intro hsmall
    rw [field, fieldFrom_small h (by rw [Nat.shiftLeft_zero]; omega), Nat.shiftLeft_zero]
    exact toInt_ofNat hsmall

end Values

section Signs

variable {bytes rest : List UInt8} {shift : ℕ} {i : ℤ}

def signBits (shift : ℕ) : BitVec 32 := BitVec.allOnes 32 <<< (shift % 32)

theorem lebBits_or_signBits {byte : UInt8} (h : byte.toNat % 128 = 127) (hshift : shift ≤ 24) :
    lebBits byte shift ||| signBits (shift + 7) = signBits shift := by
  have hall : ∀ s : Fin 25, lebBits 0x7f s ||| signBits (s + 7) = signBits s := by decide +kernel
  have hbyte : byte &&& 0x7f = 0x7f := by
    apply UInt8.toNat_inj.mp
    rw [UInt8.toNat_and]
    exact (Nat.and_two_pow_sub_one_eq_mod byte.toNat 7).trans h
  have hsame : lebBits byte shift = lebBits 0x7f shift := by
    rw [lebBits, lebBits, hbyte]
    rfl
  rw [hsame]
  exact hall ⟨shift, by omega⟩

theorem wrapped_sign (h : Sleb i bytes) (hi : i = -1) (hshift : shift + 7 * bytes.length ≤ 31) :
    (fieldFrom shift (bytes ++ rest)).1 ||| signBits (shift + 7 * bytes.length) = signBits shift := by
  induction h generalizing shift with
  | @last byte low =>
    rw [List.length_singleton] at hshift
    have hbyte : byte.toNat % 128 = 127 := by
      split_ifs at hi
      omega
    rw [List.singleton_append, fieldFrom, continues_of_low low, List.length_singleton]
    exact lebBits_or_signBits hbyte (by omega)
  | @more byte i bytes high behind ih =>
    have hmore : byte.toNat < 256 := byte.toNat_lt
    rw [List.length_cons] at hshift
    rw [List.cons_append, fieldFrom, if_pos (continues_iff.mpr high), List.length_cons, BitVec.or_assoc,
      show shift + 7 * (bytes.length + 1) = shift + 7 + 7 * bytes.length by ring, ih (by omega) (by omega)]
    exact lebBits_or_signBits (by omega) (by omega)

theorem fieldFrom_wrap (bytes : List UInt8) (shift : ℕ) : fieldFrom (shift + 32) bytes = fieldFrom shift bytes := by
  induction bytes generalizing shift with
  | nil => rfl
  | cons byte bytes ih =>
    rw [fieldFrom, fieldFrom, lebBits_shift, show shift + 32 + 7 = shift + 7 + 32 by ring, ih]

theorem lebBits_absorbed (byte : UInt8) (hlow : 3 ≤ shift) (hshift : shift < 32) :
    lebBits byte shift ||| signBits 3 = signBits 3 := by
  apply BitVec.eq_of_getLsbD_eq
  intro q hq
  rw [BitVec.getLsbD_or, lebBits, signBits, BitVec.getLsbD_shiftLeft, BitVec.getLsbD_shiftLeft,
    Nat.mod_eq_of_lt hshift, BitVec.getLsbD_allOnes]
  by_cases hq3 : q < 3
  · simp [hq, hq3, show q < shift by omega]
  · simp [hq, hq3, show q - 3 < 32 by omega]

theorem signBits_wrap (shift : ℕ) : signBits (shift + 32) = signBits shift := by
  rw [signBits, signBits, Nat.add_mod_right]

theorem late_sign (h : Sleb i bytes) (hi : i < 0) {k : ℕ} (hk : shift + 7 * k = 28) (hfirst : 7 ≤ shift)
    (hbound : -2 ^ (7 * (k + 1)) ≤ i) (hlong : k < bytes.length) (hshort : bytes.length ≤ k + 5) :
    (fieldFrom shift (bytes ++ rest)).1 ||| signBits (shift + 7 * bytes.length) = signBits 3 := by
  induction k generalizing i bytes shift with
  | zero =>
    obtain rfl : shift = 28 := by omega
    cases h with
    | @last byte low =>
      rw [List.singleton_append, fieldFrom, continues_of_low low, List.length_singleton, signBits_wrap 3]
      exact @lebBits_absorbed 28 byte (by omega) (by omega)
    | @more byte i bytes high behind =>
      have hmore : byte.toNat < 256 := byte.toNat_lt
      have hone : i = -1 := by omega
      rw [List.length_cons] at hshort
      rw [List.cons_append, fieldFrom, if_pos (continues_iff.mpr high), List.length_cons, BitVec.or_assoc,
        fieldFrom_wrap _ 3, show 28 + 7 * (bytes.length + 1) = 3 + 7 * bytes.length + 32 by ring, signBits_wrap,
        wrapped_sign behind hone (by omega)]
      exact @lebBits_absorbed 28 byte (by omega) (by omega)
  | succ k ih =>
    cases h with
    | @last byte low =>
      rw [List.length_singleton] at hlong
      omega
    | @more byte i bytes high behind =>
      have hmore : byte.toNat < 256 := byte.toNat_lt
      have hpow : (2 : ℤ) ^ (7 * (k + 1 + 1)) = 128 * 2 ^ (7 * (k + 1)) := by ring
      rw [List.length_cons] at hlong hshort
      rw [List.cons_append, fieldFrom, if_pos (continues_iff.mpr high), List.length_cons, BitVec.or_assoc,
        show shift + 7 * (bytes.length + 1) = shift + 7 + 7 * bytes.length by ring,
        ih behind (by omega) (by omega) (by omega) (by omega) (by omega) (by omega)]
      exact lebBits_absorbed byte (by omega) (by omega)

theorem long_negative (h : Sleb i bytes) (hi : i < 0) (hbound : -2 ^ 35 ≤ i) (hlong : 5 ≤ bytes.length)
    (hshort : bytes.length ≤ 9) (rest : List UInt8) :
    ((field (bytes ++ rest)).1 ||| signBits (7 * bytes.length)).toInt = i % 8 - 8 := by
  cases h with
  | @last byte low =>
    rw [List.length_singleton] at hlong
    omega
  | @more byte i bytes high behind =>
    have hmore : byte.toNat < 256 := byte.toNat_lt
    have hall : ∀ n : Fin 256, (lebBits (UInt8.ofNat n) 0 ||| signBits 3).toInt = (n : ℤ) % 8 - 8 := by decide +kernel
    have hbyte := hall ⟨byte.toNat, hmore⟩
    rw [UInt8.ofNat_toNat] at hbyte
    rw [List.length_cons] at hlong hshort
    rw [List.cons_append, field, fieldFrom, if_pos (continues_iff.mpr high), List.length_cons, BitVec.or_assoc,
      show 7 * (bytes.length + 1) = 7 + 7 * bytes.length by ring,
      @late_sign bytes rest 7 i behind (by omega) 3 rfl le_rfl (by omega) (by omega) (by omega), hbyte]
    dsimp only
    omega

theorem short_negative (h : Sleb i bytes) (hi : i < 0) (hshort : bytes.length ≤ 4) (rest : List UInt8) :
    ((field (bytes ++ rest)).1 ||| signBits (7 * bytes.length)).toInt = i := by
  obtain ⟨n, hn, hcode⟩ := h.uleb_of_neg hi
  have hlt := hcode.lt
  have hpow : 2 ^ (7 * bytes.length) ≤ 2 ^ 28 := Nat.pow_le_pow_right (by norm_num) (by omega)
  have hcast : ((2 ^ (7 * bytes.length) : ℕ) : ℤ) = 2 ^ (7 * bytes.length) := by push_cast; rfl
  have hfield : field (bytes ++ rest) = (BitVec.ofNat 32 n, rest) := by
    rw [field, fieldFrom_small hcode (by rw [Nat.shiftLeft_zero]; omega), Nat.shiftLeft_zero]
  have hsign : (signBits (7 * bytes.length)).toNat = 2 ^ 32 - 2 ^ (7 * bytes.length) := by
    have hall : ∀ k : Fin 5, (signBits (7 * k)).toNat = 2 ^ 32 - 2 ^ (7 * k.val) := by decide +kernel
    exact hall ⟨bytes.length, by omega⟩
  have hsum : n ||| (2 ^ 32 - 2 ^ (7 * bytes.length)) = n + (2 ^ 32 - 2 ^ (7 * bytes.length)) := by
    have hor := Nat.shiftLeft_add_eq_or_of_lt hlt (2 ^ (32 - 7 * bytes.length) - 1)
    have hshift : (2 ^ (32 - 7 * bytes.length) - 1) <<< (7 * bytes.length) = 2 ^ 32 - 2 ^ (7 * bytes.length) := by
      rw [Nat.shiftLeft_eq, Nat.sub_mul, ← pow_add, one_mul, show 32 - 7 * bytes.length + 7 * bytes.length = 32 by omega]
    rw [hshift] at hor
    rw [Nat.or_comm, ← hor, Nat.add_comm]
  rw [hfield, BitVec.toInt_eq_toNat_cond, BitVec.toNat_or, BitVec.toNat_ofNat, hsign, Nat.mod_eq_of_lt (by omega), hsum]
  split_ifs <;> omega

end Signs

section Readers

variable {data bytes rest : List UInt8} {offset i : ℤ} {n : ℕ}

theorem readULEB128_iff (h : Uleb n bytes) (hat : At data (bytes ++ rest) offset) :
    (readULEB128 data offset).outcome = .done ((n : ℤ), offset + bytes.length) ↔ bytes.length ≤ 9 ∧ n < 2 ^ 31 := by
  by_cases hshort : bytes.length ≤ 9
  · have hread := @readLeb_terminated data bytes rest offset uleb128 h.terminated hat
      fun s hs => overflow_of_le rfl (by omega)
    rw [readULEB128, outcome_bind_of_done hread, ← field_toInt_iff h rest]
    simp [hshort]
  · obtain ⟨error, herror⟩ := @readLeb_overflow data bytes rest offset uleb128 63 _ rfl h.terminated hat (by omega)
    refine iff_of_false ?_ fun h => hshort h.1
    rw [readULEB128, outcome_bind_eq_done]
    rintro ⟨leb, hleb, -⟩
    rw [herror] at hleb
    cases hleb

theorem signed_value_iff (h : Sleb i bytes) (hshort : bytes.length ≤ 9) (rest : List UInt8) :
    (if i < 0 then (field (bytes ++ rest)).1 ||| signBits (7 * bytes.length) else (field (bytes ++ rest)).1).toInt = i ↔
      bytes.length ≤ 4 ∨ -8 ≤ i ∧ i < 2 ^ 31 := by
  split_ifs with hi
  · by_cases hfour : bytes.length ≤ 4
    · exact iff_of_true (short_negative h hi hfour rest) (.inl hfour)
    · by_cases hbound : -2 ^ 35 ≤ i
      · rw [long_negative h hi hbound (by omega) hshort rest]
        omega
      · have hle := BitVec.le_toInt ((field (bytes ++ rest)).1 ||| signBits (7 * bytes.length))
        omega
  · have hcode := h.uleb_of_nonneg (by omega)
    have hlt := hcode.lt
    have hiff := field_toInt_iff hcode rest
    rw [Int.toNat_of_nonneg (by omega)] at hiff
    rw [hiff]
    by_cases hfour : bytes.length ≤ 4
    · have hpow : 2 ^ (7 * bytes.length) ≤ 2 ^ 28 := Nat.pow_le_pow_right (by norm_num) (by omega)
      omega
    · omega

theorem sign_bit_iff {byte : UInt8} : byte &&& 0x40 ≠ 0 ↔ 64 ≤ byte.toNat % 128 := by
  have hall : ∀ n : Fin 256, UInt8.ofNat n &&& 0x40 ≠ 0 ↔ 64 ≤ n.val % 128 := by decide +kernel
  have hbyte := hall ⟨byte.toNat, byte.toNat_lt⟩
  rwa [UInt8.ofNat_toNat] at hbyte

theorem readSLEB128_iff (h : Sleb i bytes) (hat : At data (bytes ++ rest) offset) :
    (readSLEB128 data offset).outcome = .done (i, offset + bytes.length) ↔
      bytes.length ≤ 9 ∧ (bytes.length ≤ 4 ∨ -8 ≤ i ∧ i < 2 ^ 31) := by
  by_cases hshort : bytes.length ≤ 9
  · have hread := @readLeb_terminated data bytes rest offset sleb128 h.terminated hat
      fun s hs => overflow_of_le rfl (by omega)
    have hnegative : (bytes.getLast?.any fun byte => decide (byte &&& 0x40 ≠ 0)) = decide (i < 0) := by
      rw [Bool.eq_iff_iff, decide_eq_true_iff, h.neg_iff, Option.any_eq_true]
      simp only [decide_eq_true_eq, sign_bit_iff]
    rw [readSLEB128, outcome_bind_of_done hread, ← signed_value_iff h hshort rest]
    simp only [hnegative, show 7 * bytes.length < 64 by omega, decide_true, Bool.and_true, decide_eq_true_eq,
      hshort, true_and, outcome_pure, Outcome.done.injEq, Prod.mk.injEq, and_true]
    rfl
  · obtain ⟨error, herror⟩ := @readLeb_overflow data bytes rest offset sleb128 64 _ rfl h.terminated hat (by omega)
    refine iff_of_false ?_ fun h => hshort h.1
    rw [readSLEB128, outcome_bind_eq_done]
    rintro ⟨leb, hleb, -⟩
    rw [herror] at hleb
    cases hleb

theorem readLeb_stopping_iff (h : Uleb n bytes) (hat : At data (bytes ++ rest) offset) :
    (∃ leb, (readLeb stopping data offset).outcome = .done leb ∧ leb.value.toInt = n ∧
      leb.offset = offset + bytes.length) ↔ n < 2 ^ 31 := by
  have hread := @readLeb_terminated data bytes rest offset stopping h.terminated hat fun _ _ => rfl
  simp [hread, field_toInt_iff h rest]

theorem readLeb_sectionSize_iff (h : Uleb n bytes) (hat : At data (bytes ++ rest) offset) :
    (∃ leb, (readLeb sectionSize data offset).outcome = .done leb ∧ leb.value.toInt = n ∧
      leb.offset = offset + bytes.length) ↔ bytes.length ≤ 4 := by
  by_cases hshort : bytes.length ≤ 4
  · have hread := @readLeb_terminated data bytes rest offset sectionSize h.terminated hat
      fun s hs => overflow_of_le rfl (by omega)
    have hlt := h.lt
    have hpow : 2 ^ (7 * bytes.length) ≤ 2 ^ 28 := Nat.pow_le_pow_right (by norm_num) (by omega)
    simp [hread, field_toInt_iff h rest, hshort]
    omega
  · obtain ⟨error, herror⟩ := @readLeb_overflow data bytes rest offset sectionSize 32 _ rfl h.terminated hat (by omega)
    simp [herror, hshort]

end Readers

section SizedSections

structure SizedSection where
  id : UInt8
  size : List UInt8
  content : List UInt8

def SizedSection.bytes (s : SizedSection) : List UInt8 := s.id :: (s.size ++ s.content)

def SizedSection.part (s : SizedSection) : UInt8 × List UInt8 := (s.id, s.content)

def SizedSection.Coded (s : SizedSection) : Prop := IntegerType.u32.Code s.content.length s.size

variable (replaceInvalid : List UInt8 → List Char) {buffer bytes rest : List UInt8} {offset : ℤ}
variable {sections : List SizedSection}

theorem SizedSection.Coded.uleb {s : SizedSection} (h : s.Coded) : Uleb s.content.length s.size := by
  obtain ⟨-, n, hn, -, hcode⟩ := h
  rwa [Nat.cast_inj.mp hn]

theorem endsWithin_iff {n : ℕ} (h : Terminated bytes) : EndsWithin n (bytes ++ rest) ↔ bytes.length ≤ n := by
  induction h generalizing n with
  | @last byte low =>
    cases n with
    | zero => simp [EndsWithin]
    | succ n => simp [EndsWithin, continues_of_low low]
  | @more byte bytes high behind ih =>
    cases n with
    | zero => simp [EndsWithin]
    | succ n =>
      rw [List.cons_append, EndsWithin, continues_iff, List.length_cons, Nat.succ_le_succ_iff, ← ih]
      simp only [high, true_imp_iff]

theorem field_size {s : SizedSection} (h : s.Coded) (hshort : s.size.length ≤ 4) (rest : List UInt8) :
    field (s.size ++ rest) = (BitVec.ofNat 32 s.content.length, rest) ∧
      (BitVec.ofNat 32 s.content.length).toNat = s.content.length := by
  have hlt := h.uleb.lt
  have hpow : 2 ^ (7 * s.size.length) ≤ 2 ^ 28 := Nat.pow_le_pow_right (by norm_num) (by omega)
  rw [field, fieldFrom_small h.uleb (by rw [Nat.shiftLeft_zero]; omega), Nat.shiftLeft_zero, BitVec.toNat_ofNat]
  exact ⟨rfl, Nat.mod_eq_of_lt (by omega)⟩

theorem sectioned_iff (hcoded : ∀ s ∈ sections, s.Coded) {parts : List (UInt8 × List UInt8)} :
    Sectioned (sections.flatMap SizedSection.bytes) parts ↔
      (∀ s ∈ sections, s.size.length ≤ 4) ∧ parts = sections.map SizedSection.part := by
  induction sections generalizing parts with
  | nil =>
    constructor
    · intro h
      cases h
      simp
    · rintro ⟨-, rfl⟩
      exact .nil
  | cons s sections ih =>
    rw [List.forall_mem_cons] at hcoded
    have hends := @endsWithin_iff s.size (s.content ++ sections.flatMap SizedSection.bytes) 4 hcoded.1.uleb.terminated
    rw [List.flatMap_cons, SizedSection.bytes, List.cons_append, List.append_assoc, sectioned_cons_iff, hends,
      List.forall_mem_cons]
    by_cases hshort : s.size.length ≤ 4
    · obtain ⟨hfield, hlength⟩ := field_size hcoded.1 hshort (s.content ++ sections.flatMap SizedSection.bytes)
      rw [subsectionBytes, hfield]
      dsimp only
      rw [hlength, List.drop_left, List.take_left, List.length_append]
      simp only [ih hcoded.2, hshort, Nat.le_add_right, true_and, List.map_cons]
      constructor
      · rintro ⟨later, ⟨hlater, rfl⟩, rfl⟩
        exact ⟨hlater, rfl⟩
      · rintro ⟨hlater, rfl⟩
        exact ⟨_, ⟨hlater, rfl⟩, rfl⟩
    · simp only [hshort, false_and]

def Accepts (buffer : List UInt8) (offset : ℤ) (sections : List SizedSection) : Prop :=
  ∃ fuel parsed, (walkSections replaceInvalid buffer fuel offset).outcome = .done parsed ∧
    List.Forall₂ (Describes replaceInvalid) (sections.map SizedSection.part) parsed

theorem accepts_iff (hcoded : ∀ s ∈ sections, s.Coded)
    (hat : At buffer (sections.flatMap SizedSection.bytes) offset) :
    Accepts replaceInvalid buffer offset sections ↔ ∀ s ∈ sections, s.size.length ≤ 4 := by
  constructor
  · rintro ⟨fuel, parsed, hdone, -⟩
    obtain ⟨parts, hparts, -⟩ := sectioned_of_walkSections replaceInvalid fuel hat hdone
    exact ((sectioned_iff hcoded).mp hparts).1
  · intro hshort
    have hsectioned := (sectioned_iff hcoded).mpr ⟨hshort, rfl⟩
    have hfinished := (walkSections_sound replaceInvalid _ hat).2 (Nat.lt_succ_self _)
    exact ⟨_, walkSections_of_sectioned replaceInvalid _ hat hsectioned hfinished⟩

end SizedSections

section Exactness

inductive LebReader where
  | uleb128
  | sleb128
  | sectionParsers
  | sectionSize

def LebReader.types : LebReader → List IntegerType
  | uleb128 => [.u32, .u64]
  | sleb128 => [.s32, .s64]
  | sectionParsers => [.u32]
  | sectionSize => [.u32]

def LebReader.read (reader : LebReader) (data : List UInt8) (offset : ℤ) : Walk WasmError (ℤ × ℤ) :=
  match reader with
  | uleb128 => readULEB128 data offset
  | sleb128 => readSLEB128 data offset
  | sectionParsers => do
    let leb ← readLeb stopping data offset
    pure (leb.value.toInt, leb.offset)
  | sectionSize => do
    let leb ← readLeb WasmParse.sectionSize data offset
    pure (leb.value.toInt, leb.offset)

/-- The codes that a reader reads as they are: the bits above the 32nd and the shifts above 31 are its limit. -/
def LebReader.Readable (reader : LebReader) (i : ℤ) (bytes : List UInt8) : Prop :=
  match reader with
  | uleb128 => bytes.length ≤ 9 ∧ i < 2 ^ 31
  | sleb128 => bytes.length ≤ 9 ∧ (bytes.length ≤ 4 ∨ -8 ≤ i ∧ i < 2 ^ 31)
  | sectionParsers => i < 2 ^ 31
  | sectionSize => bytes.length ≤ 4

variable {data bytes rest : List UInt8} {offset i : ℤ}

theorem outcome_pair {walk : Walk WasmError Leb} {target : ℤ} :
    (walk >>= fun leb => (pure (leb.value.toInt, leb.offset) : Walk WasmError (ℤ × ℤ))).outcome = .done (i, target) ↔
      ∃ leb, walk.outcome = .done leb ∧ leb.value.toInt = i ∧ leb.offset = target := by
  rw [outcome_bind_eq_done]
  simp only [outcome_pure, Outcome.done.injEq, Prod.mk.injEq]

theorem read_iff (reader : LebReader) {type : IntegerType} (htype : type ∈ reader.types) (hcode : type.Code i bytes)
    (hat : At data (bytes ++ rest) offset) :
    (reader.read data offset).outcome = .done (i, offset + bytes.length) ↔ reader.Readable i bytes := by
  have hunsigned : type = .u32 ∨ type = .u64 → ∃ n : ℕ, i = n ∧ Uleb n bytes := by
    rintro (rfl | rfl)
    · obtain ⟨-, n, hn, -, hn'⟩ := hcode
      exact ⟨n, hn, hn'⟩
    · obtain ⟨-, n, hn, -, hn'⟩ := hcode
      exact ⟨n, hn, hn'⟩
  cases reader with
  | uleb128 =>
    obtain ⟨n, rfl, huleb⟩ := hunsigned (by simpa [LebReader.types] using htype)
    rw [LebReader.read, readULEB128_iff huleb hat, LebReader.Readable]
    norm_cast
  | sleb128 =>
    have hsleb : Sleb i bytes := by
      rcases List.mem_pair.mp htype with rfl | rfl
      · exact hcode.2.2.2
      · exact hcode.2.2.2
    exact readSLEB128_iff hsleb hat
  | sectionParsers =>
    obtain ⟨n, rfl, huleb⟩ := hunsigned (.inl (List.mem_singleton.mp htype))
    rw [LebReader.read, outcome_pair, readLeb_stopping_iff huleb hat, LebReader.Readable]
    norm_cast
  | sectionSize =>
    obtain ⟨n, rfl, huleb⟩ := hunsigned (.inl (List.mem_singleton.mp htype))
    rw [LebReader.read, outcome_pair, readLeb_sectionSize_iff huleb hat, LebReader.Readable]

theorem leb128_exact_iff (replaceInvalid : List UInt8 → List Char) :
    (∀ (reader : LebReader) (type : IntegerType) (i : ℤ) (bytes data rest : List UInt8) (offset : ℤ),
      type ∈ reader.types → type.Code i bytes → At data (bytes ++ rest) offset →
        ((reader.read data offset).outcome = .done (i, offset + bytes.length) ↔ reader.Readable i bytes)) ∧
      ∀ (sections : List SizedSection) (buffer : List UInt8) (offset : ℤ), (∀ s ∈ sections, s.Coded) →
        At buffer (sections.flatMap SizedSection.bytes) offset →
          (Accepts replaceInvalid buffer offset sections ↔ ∀ s ∈ sections, s.size.length ≤ 4) :=
  ⟨fun reader _ _ _ _ _ _ htype hcode hat => read_iff reader htype hcode hat,
    fun _ _ _ hcoded hat => accepts_iff replaceInvalid hcoded hat⟩

theorem five_bytes_misread :
    (IntegerType.u32.Code 4294967295 [0xff, 0xff, 0xff, 0xff, 0x0f] ∧
      (readULEB128 [0xff, 0xff, 0xff, 0xff, 0x0f] 0).outcome = .done (-1, 5)) ∧
    IntegerType.u32.Code 0 [0x80, 0x80, 0x80, 0x80, 0x00] ∧
      (walkSections (fun _ => []) [0, 0x80, 0x80, 0x80, 0x80, 0x00] 7 0).outcome = .thrown .sectionSizeOverflow := by
  -- the greatest 32-bit number is read as -1, and a size of zero padded to five bytes is refused
  have hgreatest : Uleb 4294967295 [0xff, 0xff, 0xff, 0xff, 0x0f] :=
    @Uleb.more 0xff 33554431 _ (by decide) (@Uleb.more 0xff 262143 _ (by decide) (@Uleb.more 0xff 2047 _ (by decide)
      (@Uleb.more 0xff 15 _ (by decide) (@Uleb.last 0x0f (by decide)))))
  have hzero : Uleb 0 [0x80, 0x80, 0x80, 0x80, 0x00] :=
    @Uleb.more 0x80 0 _ (by decide) (@Uleb.more 0x80 0 _ (by decide) (@Uleb.more 0x80 0 _ (by decide)
      (@Uleb.more 0x80 0 _ (by decide) (@Uleb.last 0 (by decide)))))
  exact ⟨⟨⟨by decide, _, rfl, by norm_num, hgreatest⟩, by decide +kernel⟩, ⟨by decide, _, rfl, by norm_num, hzero⟩, rfl⟩

end Exactness

end CrashLab.WasmParse
