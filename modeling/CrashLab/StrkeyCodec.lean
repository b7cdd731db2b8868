import CrashLab.StellarAddress
import CrashLab.UriTexts

namespace CrashLab.StellarAddress

open BitGroups SignatureHash ShiftRegisters Digest

section Digits

theorem base32Value_lt {b v : UInt8} (h : base32Value b = some v) : v.toNat < 2 ^ 5 := by
  unfold base32Value at h
  split_ifs at h with hletter hdigit
  · obtain ⟨hlow, hhigh⟩ := hletter
    rw [← Option.some.inj h, UInt8.toNat_sub_of_le _ _ hlow]
    rw [UInt8.le_iff_toNat_le] at hhigh
    change b.toNat ≤ 90 at hhigh
    change b.toNat - 65 < 32
    omega
  · obtain ⟨hlow, hhigh⟩ := hdigit
    rw [← Option.some.inj h, UInt8.toNat_add, UInt8.toNat_sub_of_le _ _ hlow]
    rw [UInt8.le_iff_toNat_le] at hhigh
    change b.toNat ≤ 55 at hhigh
    change (b.toNat - 50 + 26) % 256 < 32
    omega

theorem base32Value_digit {n : ℕ} (h : n < 32) :
    base32Value (UInt8.ofNat (base32Digit n).toNat) = some (UInt8.ofNat n) := by
  interval_cases n <;> decide

theorem utf8_base32Digit (n : ℕ) :
    String.utf8EncodeChar (base32Digit n) = [UInt8.ofNat (base32Digit n).toNat] := by
  by_cases h : n < 32
  · interval_cases n <;> decide
  · have hlength : base32Alphabet.length = 32 := by decide
    have hdefault : base32Digit n = 'A' := by
      rw [base32Digit, List.getD_eq_getElem?_getD, List.getElem?_eq_none (by omega)]
      rfl
    rw [hdefault]
    rfl

def valueOf (b : UInt8) : ℕ := ((base32Value b).getD 0).toNat

end Digits

section Decoder

def bitsLeft (win : Window) (out : List UInt8) : ℕ := 256 - (8 * out.length + win.bits)

def charsLeft (win : Window) (out : List UInt8) : ℕ := (bitsLeft win out + 4) / 5

def Legible (n : ℕ) (rest : List UInt8) : Prop := n ≤ rest.length ∧ ∀ b ∈ rest.take n, (base32Value b).isSome

theorem legible_succ {n : ℕ} {b : UInt8} {rest : List UInt8} :
    Legible (n + 1) (b :: rest) ↔ (base32Value b).isSome ∧ Legible n rest := by
  simp only [Legible, List.length_cons, Nat.add_le_add_iff_right, List.take_succ_cons, List.forall_mem_cons]
  tauto

def keyBits (bytes : List UInt8) : List Bool := (bytes.map UInt8.toNat).flatMap (bitsOf 8)

def readBits (n : ℕ) (rest : List UInt8) : List Bool := ((rest.take n).map valueOf).flatMap (bitsOf 5)

theorem keyBits_append (a b : List UInt8) : keyBits (a ++ b) = keyBits a ++ keyBits b := by simp [keyBits]

theorem length_keyBits (bytes : List UInt8) : (keyBits bytes).length = 8 * bytes.length := by
  rw [keyBits, length_flatMap_bitsOf, List.length_map]

theorem keyBits_top (win : Window) : keyBits [UInt8.ofNat (win.top 8)] = bitsOf 8 (win.top 8) := by
  have hlt : win.top 8 < 256 := Window.top_lt
  simp [keyBits, Nat.mod_eq_of_lt hlt]

theorem collectKey_cons {win : Window} {out : List UInt8} (hbits : win.bits < 8) {b v : UInt8}
    (hv : base32Value b = some v) (rest : List UInt8) :
    ∃ win' out', keyBits out' ++ win'.content = keyBits out ++ win.content ++ bitsOf 5 (valueOf b) ∧ win'.bits < 8 ∧
      8 * out'.length + win'.bits = 8 * out.length + win.bits + 5 ∧ out.length ≤ out'.length ∧
      collectKey win out (b :: rest) =
        if out.length < out'.length ∧ out'.length = 32 then some out' else collectKey win' out' rest := by
  have hvalue : valueOf b = v.toNat := by rw [valueOf, hv]; rfl
  have hpush : (win.push 5 v.toNat).content = win.content ++ bitsOf 5 v.toNat :=
    Window.content_push (base32Value_lt hv) (by omega)
  have hsum : (win.push 5 v.toNat).bits = win.bits + 5 := rfl
  by_cases hfull : 8 ≤ win.bits + 5
  · refine ⟨(win.push 5 v.toNat).pop 8, out ++ [UInt8.ofNat ((win.push 5 v.toNat).top 8)], ?_, ?_, ?_, ?_, ?_⟩
    · rw [keyBits_append, keyBits_top, List.append_assoc, ← Window.content_pop (by omega), hpush, hvalue,
        List.append_assoc]
    · change win.bits + 5 - 8 < 8
      omega
    · change 8 * (out ++ [_]).length + (win.bits + 5 - 8) = _
      simp only [List.length_append, List.length_singleton]
      omega
    · simp
    · simp [collectKey, hv, hsum, hfull]
  · refine ⟨win.push 5 v.toNat, out, ?_, ?_, ?_, le_refl _, ?_⟩
    · rw [hpush, hvalue, List.append_assoc]
    · omega
    · omega
    · simp [collectKey, hv, hsum, hfull]

theorem collectKey_legible {win : Window} {out rest : List UInt8} (hbits : win.bits < 8) (hout : out.length < 32)
    (h : Legible (charsLeft win out) rest) : ∃ result pending, collectKey win out rest = some result ∧
      result.length = 32 ∧
      keyBits result ++ pending = keyBits out ++ win.content ++ readBits (charsLeft win out) rest := by
  induction rest generalizing win out with
  | nil =>
    have hle : charsLeft win out ≤ 0 := h.1
    unfold charsLeft bitsLeft at hle
    omega
  | cons b rest ih =>
    obtain ⟨n, hn⟩ : ∃ n, charsLeft win out = n + 1 := by
      refine ⟨charsLeft win out - 1, ?_⟩
      unfold charsLeft bitsLeft
      omega
    rw [hn, legible_succ] at h
    obtain ⟨hsome, hrest⟩ := h
    obtain ⟨v, hv⟩ := Option.isSome_iff_exists.mp hsome
    obtain ⟨win', out', hcontent, hbits', hsize, hle, hstep⟩ := collectKey_cons hbits hv rest
    have hread : readBits (n + 1) (b :: rest) = bitsOf 5 (valueOf b) ++ readBits n rest := by
      simp [readBits]
    rw [hn, hread, ← List.append_assoc, ← hcontent, hstep]
    by_cases hdone : out'.length = 32
    · have hlast : n = 0 := by
        unfold charsLeft bitsLeft at hn
        omega
      refine ⟨out', win'.content, ?_, hdone, ?_⟩
      · rw [if_pos ⟨by omega, hdone⟩]
      · simp [hlast, readBits]
    · have hnext : charsLeft win' out' = n := by
        unfold charsLeft bitsLeft at hn ⊢
        omega
      rw [if_neg fun hboth => hdone hboth.2]
      rw [← hnext] at hrest ⊢
      exact ih hbits' (by omega) hrest

theorem collectKey_illegible {win : Window} {out rest result : List UInt8} (hbits : win.bits < 8)
    (hout : out.length < 32) (h : ¬Legible (charsLeft win out) rest) (hresult : collectKey win out rest = some result) :
    result.length ≠ 32 := by
  induction rest generalizing win out with
  | nil =>
    obtain rfl := Option.some.inj hresult
    omega
  | cons b rest ih =>
    obtain ⟨n, hn⟩ : ∃ n, charsLeft win out = n + 1 := by
      refine ⟨charsLeft win out - 1, ?_⟩
      unfold charsLeft bitsLeft
      omega
    rw [hn, legible_succ, not_and] at h
    cases hv : base32Value b with
    | none => simp [collectKey, hv] at hresult
    | some v =>
      have hrest := h (by rw [hv]; rfl)
      obtain ⟨win', out', -, hbits', hsize, hle, hstep⟩ := collectKey_cons hbits hv rest
      rw [hstep] at hresult
      by_cases hdone : out'.length = 32
      · have hlast : n = 0 := by
          unfold charsLeft bitsLeft at hn
          omega
        rw [hlast] at hrest
        exact absurd ⟨Nat.zero_le _, fun _ hmem => absurd hmem (by simp)⟩ hrest
      · have hnext : charsLeft win' out' = n := by
          unfold charsLeft bitsLeft at hn ⊢
          omega
        rw [if_neg fun hboth => hdone hboth.2] at hresult
        rw [← hnext] at hrest
        exact ih hbits' (by omega) hrest hresult

end Decoder

section Encoder

def byteDigit (n : ℕ) : UInt8 := UInt8.ofNat (base32Digit n).toNat

def addressGroups (key : Bytes32) (addrType : AddressType) : List ℕ :=
  (payloadGroups key ++ List.replicate (addrType.validLength - 59) 0).take (addrType.validLength - 1)

theorem valueOf_byteDigit {n : ℕ} (h : n < 32) : valueOf (byteDigit n) = n := by
  rw [valueOf, byteDigit, base32Value_digit h, Option.getD_some, UInt8.toNat_ofNat', Nat.mod_eq_of_lt (by omega)]

theorem crcBytes_lt (crc : ℕ) : ∀ byte ∈ crcBytes crc, byte < 2 ^ 8 := by
  intro byte hmem
  obtain ⟨i, -, rfl⟩ := List.mem_map.mp hmem
  exact Nat.mod_lt _ (by norm_num)

theorem bits_padding {win : Window} (h : win.bits = 1) :
    ∃ group, padding win = [group] ∧ group < 2 ^ 5 ∧ bitsOf 5 group = win.content ++ List.replicate 4 false := by
  obtain ⟨acc, bits⟩ := win
  dsimp only at h
  subst h
  refine ⟨((acc <<< 4) % 2 ^ 32) &&& 0x1F, rfl, ?_, ?_⟩
  · exact Nat.and_lt_two_pow _ (by norm_num)
  · have hbit : ∀ i < 5, (((acc <<< 4) % 2 ^ 32) &&& 0x1F).testBit i = (decide (4 ≤ i) && acc.testBit (i - 4)) := by
      intro i hi
      rw [show 0x1F = 2 ^ 5 - 1 from rfl, Nat.and_two_pow_sub_one_eq_mod, Nat.testBit_mod_two_pow,
        Nat.testBit_mod_two_pow, Nat.testBit_shiftLeft]
      simp [hi, show i < 32 by omega]
    generalize ((acc <<< 4) % 2 ^ 32) &&& 0x1F = group at hbit
    simp [bitsOf, List.range_succ, Window.content, hbit]

theorem payloadGroups_spec (key : Bytes32) : (payloadGroups key).length = 58 ∧
    (∀ group ∈ payloadGroups key, group < 2 ^ 5) ∧
    ((payloadGroups key).take 52).flatMap (bitsOf 5) = keyBits key.bytes ++ List.replicate 4 false := by
  have hkey : ∀ value ∈ key.bytes.map UInt8.toNat, value < 2 ^ 8 := by
    intro value hmem
    obtain ⟨b, -, rfl⟩ := List.mem_map.mp hmem
    exact b.toNat_lt
  obtain ⟨hbody, hless, hgroups⟩ := @Window.regroup_grouped 5 8 (by norm_num) (by norm_num) _ Window.empty
    (by decide) hkey
  have hcrc := fun win hwin => @Window.regroup_grouped 5 8 (by norm_num) (by norm_num) _ win hwin
    (crcBytes_lt (crcOf key))
  unfold payloadGroups
  generalize Window.regroup 8 5 .empty (key.bytes.map UInt8.toNat) = body at hbody hless hgroups ⊢
  obtain ⟨body, win⟩ := body
  specialize hcrc win hless
  dsimp only at hbody hless hgroups hcrc ⊢
  have hsize := congrArg List.length hbody
  rw [List.length_append, length_flatMap_bitsOf, Window.length_content, List.length_append, Window.length_content,
    length_flatMap_bitsOf, List.length_map, key.length_eq] at hsize
  change 5 * body.length + win.bits = 0 + 256 at hsize
  have hwin : win.bits = 1 := by omega
  have hlength : body.length = 51 := by omega
  obtain ⟨group, hpad, hgroup, hbits⟩ := bits_padding hwin
  generalize Window.regroup 8 5 win (crcBytes (crcOf key)) = crc at hcrc ⊢
  obtain ⟨crc, rest⟩ := crc
  obtain ⟨hcrcBits, hcrcLess, hcrcGroups⟩ := hcrc
  dsimp only at hcrcBits hcrcLess hcrcGroups ⊢
  have hcrcSize := congrArg List.length hcrcBits
  rw [List.length_append, length_flatMap_bitsOf, Window.length_content, List.length_append, Window.length_content,
    length_flatMap_bitsOf, hwin] at hcrcSize
  have hfour : (crcBytes (crcOf key)).length = 4 := by simp [crcBytes]
  rw [hpad]
  refine ⟨?_, ?_, ?_⟩
  · simp only [List.length_append, List.length_singleton]
    omega
  · simp only [List.mem_append, List.mem_singleton]
    rintro value ((hmem | rfl) | hmem)
    · exact hgroups value hmem
    · exact hgroup
    · exact hcrcGroups value hmem
  · have htake : (body ++ [group] ++ crc).take 52 = body ++ [group] := by
      rw [List.take_append_of_le_length, List.take_of_length_le]
      · simp [hlength]
      · simp [hlength]
    rw [htake, List.flatMap_append, List.flatMap_singleton, hbits, ← List.append_assoc, hbody]
    rfl

theorem addressGroups_spec (key : Bytes32) (addrType : AddressType) :
    (addressGroups key addrType).length = addrType.validLength - 1 ∧
      (∀ group ∈ addressGroups key addrType, group < 2 ^ 5) ∧
      ((addressGroups key addrType).take 52).flatMap (bitsOf 5) = keyBits key.bytes ++ List.replicate 4 false := by
  obtain ⟨hlength, hgroups, hbits⟩ := payloadGroups_spec key
  have hvalid : 53 ≤ addrType.validLength ∧ (addrType.validLength = 56 ∨ addrType.validLength = 69) := by
    cases addrType <;> decide
  refine ⟨?_, ?_, ?_⟩
  · simp only [addressGroups, List.length_take, List.length_append, hlength, List.length_replicate]
    omega
  · intro group hmem
    rcases List.mem_append.mp (List.mem_of_mem_take hmem) with hmem | hmem
    · exact hgroups group hmem
    · rw [List.eq_of_mem_replicate hmem]
      norm_num
  · rw [addressGroups, List.take_take, Nat.min_eq_left (by omega), List.take_append_of_le_length (by omega), hbits]

theorem encodeChars_eq (key : Bytes32) (addrType : AddressType) :
    encodeChars key addrType = addrType.char :: (addressGroups key addrType).map base32Digit := by
  obtain ⟨hlength, -, -⟩ := payloadGroups_spec key
  have hvalid : addrType.validLength = addrType.validLength - 1 + 1 := by cases addrType <;> rfl
  have hpad : List.replicate (addrType.validLength - 59) 'A' =
      (List.replicate (addrType.validLength - 59) 0).map base32Digit := by
    rw [List.map_replicate]
    rfl
  rw [encodeChars, List.length_cons, List.length_map, hlength, List.cons_append, hpad, ← List.map_append, hvalid,
    List.take_succ_cons, ← List.map_take, ← hvalid]
  rfl

theorem utf8_char (addrType : AddressType) :
    String.utf8EncodeChar addrType.char = [UInt8.ofNat addrType.char.toNat] := by
  cases addrType <;> decide

theorem asBytes_encodeKeyBytes (key : Bytes32) (addrType : AddressType) :
    asBytes (encodeKeyBytes key addrType) =
      UInt8.ofNat addrType.char.toNat :: (addressGroups key addrType).map byteDigit := by
  have hdigits : ∀ groups : List ℕ, (groups.map base32Digit).flatMap String.utf8EncodeChar = groups.map byteDigit := by
    intro groups
    induction groups with
    | nil => rfl
    | cons group groups ih => rw [List.map_cons, List.flatMap_cons, utf8_base32Digit, ih]; rfl
  rw [encodeKeyBytes, asBytes_ofList, encodeChars_eq, List.flatMap_cons, utf8_char, hdigits]
  rfl

end Encoder

section Addresses

def WellFormed (addrType : AddressType) (addr : String) : Prop :=
  addr.toList.head? = some addrType.char ∧ addr.toList.length = addrType.validLength ∧
    ∀ c ∈ addr.toList, c ∈ base32Alphabet

instance (addrType : AddressType) (addr : String) : Decidable (WellFormed addrType addr) :=
  @instDecidableAnd _ _ inferInstance (@instDecidableAnd _ _ inferInstance (List.decidableBAll _ _))

/-- What the decoder looks at: the letter, the length and the 52 characters behind the letter. -/
def Readable (addr : String) : Prop :=
  ∃ addrType : AddressType, (asBytes addr).head? = some (UInt8.ofNat addrType.char.toNat) ∧
    (asBytes addr).length = addrType.validLength ∧ Legible 52 ((asBytes addr).drop 1)

theorem typeOf_eq_some_iff {b : UInt8} {addrType : AddressType} :
    typeOf b = some addrType ↔ b = UInt8.ofNat addrType.char.toNat := by
  constructor
  · intro h
    unfold typeOf at h
    split_ifs at h with hG hC hM <;> cases h
    · exact hG
    · exact hC
    · exact hM
  · rintro rfl
    cases addrType <;> rfl

theorem extractKeyBytes_eq_some_iff {addr : String} {key : Bytes32} : extractKeyBytes addr = some key ↔
    ∃ addrType : AddressType, (asBytes addr).head? = some (UInt8.ofNat addrType.char.toNat) ∧
      (asBytes addr).length = addrType.validLength ∧ collectKey .empty [] ((asBytes addr).drop 1) = some key.bytes := by
  unfold extractKeyBytes
  cases asBytes addr with
  | nil => simp
  | cons first rest =>
    obtain ⟨bytes, hbytes⟩ := key
    simp only [List.head?_cons, List.drop_one, List.tail_cons, Option.some.injEq, Option.bind_eq_bind,
      Option.bind_eq_some_iff, typeOf_eq_some_iff, ite_not]
    constructor
    · rintro ⟨addrType, hfirst, h⟩
      split_ifs at h with hlength
      obtain ⟨out, hout, h⟩ := Option.bind_eq_some_iff.mp h
      split_ifs at h with h32
      obtain rfl := congrArg Bytes32.bytes (Option.some.inj h)
      exact ⟨addrType, hfirst, hlength, hout⟩
    · rintro ⟨addrType, hfirst, hlength, hout⟩
      refine ⟨addrType, hfirst, ?_⟩
      rw [if_pos hlength, hout, Option.bind_some, dif_pos hbytes]

theorem charsLeft_empty : charsLeft .empty [] = 52 := rfl

theorem extractKeyBytes_isSome_iff (addr : String) : (extractKeyBytes addr).isSome ↔ Readable addr := by
  rw [Option.isSome_iff_exists]
  simp only [extractKeyBytes_eq_some_iff]
  constructor
  · rintro ⟨key, addrType, hhead, hlength, hcollect⟩
    refine ⟨addrType, hhead, hlength, ?_⟩
    by_contra h
    exact @collectKey_illegible .empty [] _ _ (by decide) (by decide) h hcollect key.length_eq
  · rintro ⟨addrType, hhead, hlength, hlegible⟩
    obtain ⟨result, pending, hcollect, h32, -⟩ := @collectKey_legible .empty [] _ (by decide) (by decide) hlegible
    exact ⟨⟨result, h32⟩, addrType, hhead, hlength, hcollect⟩

theorem extract_encode (key : Bytes32) (addrType : AddressType) :
    extractKeyBytes (encodeKeyBytes key addrType) = some key := by
  obtain ⟨hlength, hgroups, hbits⟩ := addressGroups_spec key addrType
  have hvalid : 53 ≤ addrType.validLength := by cases addrType <;> decide
  rw [extractKeyBytes_eq_some_iff, asBytes_encodeKeyBytes]
  refine ⟨addrType, rfl, ?_, ?_⟩
  · rw [List.length_cons, List.length_map, hlength]
    omega
  · have hlegible : Legible 52 ((addressGroups key addrType).map byteDigit) := by
      constructor
      · rw [List.length_map, hlength]
        omega
      · intro b hmem
        obtain ⟨group, hgroup, rfl⟩ := List.mem_map.mp (List.mem_of_mem_take hmem)
        rw [byteDigit, base32Value_digit (hgroups group hgroup)]
        rfl
    have hread : readBits 52 ((addressGroups key addrType).map byteDigit) = keyBits key.bytes ++ List.replicate 4 false := by
      rw [← hbits, readBits, ← List.map_take, List.map_map]
      congr 1
      conv_rhs => rw [← List.map_id ((addressGroups key addrType).take 52)]
      apply List.map_congr_left
      intro group hmem
      exact valueOf_byteDigit (hgroups group (List.mem_of_mem_take hmem))
    obtain ⟨result, pending, hcollect, h32, hresult⟩ := @collectKey_legible .empty [] _ (by decide) (by decide) hlegible
    rw [charsLeft_empty, hread] at hresult
    change keyBits result ++ pending = keyBits key.bytes ++ List.replicate 4 false at hresult
    have hsame : keyBits result = keyBits key.bytes := by
      refine (List.append_inj hresult ?_).1
      rw [length_keyBits, length_keyBits, h32, key.length_eq]
    have hlt : ∀ bytes : List UInt8, ∀ value ∈ bytes.map UInt8.toNat, value < 2 ^ 8 := by
      intro bytes value hmem
      obtain ⟨b, -, rfl⟩ := List.mem_map.mp hmem
      exact b.toNat_lt
    have hbytes : result = key.bytes := by
      apply List.map_injective_iff.mpr fun a b h => UInt8.toNat_inj.mp h
      refine flatMap_bitsOf_injOn ?_ (hlt result) (hlt key.bytes) hsame
      rw [List.length_map, List.length_map, h32, key.length_eq]
    rw [List.drop_one, List.tail_cons, hcollect, hbytes]

theorem mem_alphabet_iff (c : Char) :
    c ∈ base32Alphabet ↔ ∀ b ∈ String.utf8EncodeChar c, (base32Value b).isSome := by
  constructor
  · intro h
    have hall : (base32Alphabet.all fun d => (String.utf8EncodeChar d).all fun b => (base32Value b).isSome) = true := by
      decide +kernel
    exact List.all_eq_true.mp (List.all_eq_true.mp hall c h)
  · intro h
    obtain ⟨b, bytes, hbytes⟩ := List.exists_cons_of_ne_nil (String.utf8EncodeChar_ne_nil (c := c))
    have hsome := h b (by rw [hbytes]; exact List.mem_cons_self)
    have htable : ∀ n : Fin 256, (base32Value (UInt8.ofNat n)).isSome → n.val < 128 ∧ Char.ofNat n ∈ base32Alphabet := by
      decide +kernel
    have hb := htable ⟨b.toNat, b.toNat_lt⟩ (by rwa [UInt8.ofNat_toNat])
    have hc : c.toNat = b.toNat := ascii_mem_utf8EncodeChar hb.1 (by rw [hbytes]; exact List.mem_cons_self)
    rw [← Char.ofNat_toNat c, hc]
    exact hb.2

theorem toNat_lt_of_mem_alphabet {c : Char} (h : c ∈ base32Alphabet) : c.toNat < 128 := by
  have hall : (base32Alphabet.all fun d => d.toNat < 128) = true := by decide
  exact of_decide_eq_true (List.all_eq_true.mp hall c h)

theorem asBytes_of_alphabet {addr : String} (h : ∀ c ∈ addr.toList, c ∈ base32Alphabet) :
    asBytes addr = addr.toList.map fun c => UInt8.ofNat c.toNat := by
  rw [← String.ofList_toList (s := addr), asBytes_ofList, String.toList_ofList]
  generalize addr.toList = chars at h
  induction chars with
  | nil => rfl
  | cons c chars ih =>
    rw [List.forall_mem_cons] at h
    rw [List.flatMap_cons, ih h.2, UriTexts.utf8EncodeChar_of_lt (toNat_lt_of_mem_alphabet h.1)]
    rfl

theorem mem_alphabets_iff (addr : String) :
    (∀ c ∈ addr.toList, c ∈ base32Alphabet) ↔ ∀ b ∈ asBytes addr, (base32Value b).isSome := by
  have hbytes : asBytes addr = addr.toList.flatMap String.utf8EncodeChar := by
    rw [← asBytes_ofList, String.ofList_toList]
  simp only [hbytes, List.mem_flatMap, mem_alphabet_iff]
  constructor
  · rintro h b ⟨c, hc, hb⟩
    exact h c hc b hb
  · intro h c hc b hb
    exact h b ⟨c, hc, hb⟩

theorem char_mem_alphabet (addrType : AddressType) : addrType.char ∈ base32Alphabet := by
  cases addrType <;> decide

theorem base32Value_char (addrType : AddressType) : (base32Value (UInt8.ofNat addrType.char.toNat)).isSome := by
  cases addrType <;> decide

theorem wellFormed_iff (addrType : AddressType) (addr : String) : WellFormed addrType addr ↔
    (asBytes addr).head? = some (UInt8.ofNat addrType.char.toNat) ∧ (asBytes addr).length = addrType.validLength ∧
      ∀ b ∈ (asBytes addr).drop 1, (base32Value b).isSome := by
  constructor
  · rintro ⟨hhead, hlength, hchars⟩
    have hall := (mem_alphabets_iff addr).mp hchars
    rw [asBytes_of_alphabet hchars] at hall ⊢
    refine ⟨?_, ?_, ?_⟩
    · rw [List.head?_map, hhead]
      rfl
    · rw [List.length_map, hlength]
    · exact fun b hb => hall b (List.mem_of_mem_drop hb)
  · rintro ⟨hhead, hlength, hrest⟩
    have hall : ∀ b ∈ asBytes addr, (base32Value b).isSome := by
      cases hbytes : asBytes addr with
      | nil => exact fun _ hmem => absurd hmem List.not_mem_nil
      | cons first rest =>
        rw [hbytes, List.head?_cons, Option.some.injEq] at hhead
        rw [hbytes] at hrest
        rw [List.forall_mem_cons]
        exact ⟨hhead ▸ base32Value_char addrType, hrest⟩
    have hchars := (mem_alphabets_iff addr).mpr hall
    rw [asBytes_of_alphabet hchars] at hhead hlength
    refine ⟨?_, ?_, hchars⟩
    · rw [List.head?_map, Option.map_eq_some_iff] at hhead
      obtain ⟨c, hc, hsame⟩ := hhead
      have hlt := toNat_lt_of_mem_alphabet (hchars c (List.mem_of_mem_head? hc))
      have hlt' := toNat_lt_of_mem_alphabet (char_mem_alphabet addrType)
      have hnat := congrArg UInt8.toNat hsame
      rw [UInt8.toNat_ofNat', UInt8.toNat_ofNat', Nat.mod_eq_of_lt (by omega), Nat.mod_eq_of_lt (by omega)] at hnat
      rw [hc, Char.toNat_inj.mp hnat]
    · rwa [List.length_map] at hlength

end Addresses

section Codec

theorem readable_of_wellFormed {addrType : AddressType} {addr : String} (h : WellFormed addrType addr) : Readable addr := by
  obtain ⟨hhead, hlength, hrest⟩ := (wellFormed_iff addrType addr).mp h
  refine ⟨addrType, hhead, hlength, ?_, fun b hb => hrest b (List.mem_of_mem_take hb)⟩
  rw [List.length_drop, hlength]
  cases addrType <;> decide

theorem extractKeyBytes_exact_iff (addr : String) :
    ((extractKeyBytes addr).isSome ↔ ∃ addrType, WellFormed addrType addr) ↔
      (Readable addr → ∀ b ∈ (asBytes addr).drop 53, (base32Value b).isSome) := by
  rw [extractKeyBytes_isSome_iff]
  constructor
  · intro h hread b hb
    obtain ⟨addrType, hwell⟩ := h.mp hread
    have hrest := ((wellFormed_iff addrType addr).mp hwell).2.2
    have hdrop : (asBytes addr).drop 53 = ((asBytes addr).drop 1).drop 52 := by rw [List.drop_drop]
    rw [hdrop] at hb
    exact hrest b (List.mem_of_mem_drop hb)
  · intro h
    constructor
    · intro hread
      have htail := h hread
      obtain ⟨addrType, hhead, hlength, -, hlegible⟩ := hread
      refine ⟨addrType, (wellFormed_iff addrType addr).mpr ⟨hhead, hlength, ?_⟩⟩
      rw [← List.take_append_drop 52 ((asBytes addr).drop 1), List.drop_drop]
      intro b hb
      rcases List.mem_append.mp hb with hb | hb
      · exact hlegible b hb
      · exact htail b hb
    · rintro ⟨addrType, hwell⟩
      exact readable_of_wellFormed hwell

theorem unread_tail_accepted : ¬∀ addr : String,
    (extractKeyBytes addr).isSome ↔ ∃ addrType, WellFormed addrType addr := by
  intro h
  obtain ⟨addrType, hwell⟩ := (h "GAAAAAAAAAAAAAAAAAAAAAAAAAAAAAAAAAAAAAAAAAAAAAAAAAAAA0!1").mp (by decide +kernel)
  have hall := hwell.2.2 '!' (by decide +kernel)
  revert hall
  decide

theorem wellFormed_encode (key : Bytes32) (addrType : AddressType) : WellFormed addrType (encodeKeyBytes key addrType) := by
  obtain ⟨hlength, hgroups, -⟩ := addressGroups_spec key addrType
  have hvalid : addrType.validLength - 1 + 1 = addrType.validLength := by cases addrType <;> rfl
  rw [wellFormed_iff, asBytes_encodeKeyBytes]
  refine ⟨rfl, ?_, ?_⟩
  · rw [List.length_cons, List.length_map, hlength, hvalid]
  · intro b hb
    obtain ⟨group, hgroup, rfl⟩ := List.mem_map.mp hb
    rw [byteDigit, base32Value_digit (hgroups group hgroup)]
    rfl

theorem swapAddressType_eq {addr : String} {key : Bytes32} (h : extractKeyBytes addr = some key) (target : AddressType) :
    swapAddressType addr target = some (encodeKeyBytes key target) := by
  rw [swapAddressType, h]
  rfl

theorem strkey_codec :
    (∀ (key : Bytes32) (addrType : AddressType), WellFormed addrType (encodeKeyBytes key addrType) ∧
      extractKeyBytes (encodeKeyBytes key addrType) = some key) ∧
    ∀ (source target : AddressType) (addr : String), WellFormed source addr →
      ∃ key, extractKeyBytes addr = some key ∧
        (swapAddressType addr target).bind extractKeyBytes = some key ∧
        (swapAddressType addr target).bind (swapAddressType · source) = some (encodeKeyBytes key source) ∧
        ((swapAddressType addr target).bind (swapAddressType · source) = some addr ↔ addr = encodeKeyBytes key source) := by
  refine ⟨fun key addrType => ⟨wellFormed_encode key addrType, extract_encode key addrType⟩, ?_⟩
  intro source target addr h
  have hsome := (extractKeyBytes_isSome_iff addr).mpr (readable_of_wellFormed h)
  obtain ⟨key, hkey⟩ := Option.isSome_iff_exists.mp hsome
  have hback : (swapAddressType addr target).bind (swapAddressType · source) = some (encodeKeyBytes key source) := by
    rw [swapAddressType_eq hkey, Option.bind_some, swapAddressType_eq (extract_encode key target)]
  refine ⟨key, hkey, ?_, hback, ?_⟩
  · rw [swapAddressType_eq hkey, Option.bind_some, extract_encode]
  · rw [hback, Option.some.injEq, eq_comm]

theorem swap_back_rewrites_tail : ¬∀ (source target : AddressType) (addr : String), WellFormed source addr →
    (swapAddressType addr target).bind (swapAddressType · source) = some addr := by
  intro h
  have hsame := h .account .contract "GAAAAAAAAAAAAAAAAAAAAAAAAAAAAAAAAAAAAAAAAAAAAAAAAAAAAAAA" (by decide +kernel)
  revert hsame
  decide +kernel

end Codec

end CrashLab.StellarAddress
