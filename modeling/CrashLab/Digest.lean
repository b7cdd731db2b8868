import CrashLab.Delimited
import CrashLab.SignatureHash

namespace CrashLab.Digest

open Delimited SignatureHash

def fieldSep : UInt8 := 0x1e

def pairSep : UInt8 := 0x1f

/-- `sha2` and `hex` are outside the repository: the digest is a parameter, its hex form is not. -/
def sha256Hex (sha256 : List UInt8 → List UInt8) (bytes : List UInt8) : String := hexEncode (sha256 bytes)

def pushField (out : List UInt8) (key value : String) : List UInt8 :=
  out ++ asBytes key ++ [pairSep] ++ asBytes value ++ [fieldSep]

def fieldLine (field : String × String) : List UInt8 := asBytes field.1 ++ pairSep :: asBytes field.2

def encodeFields (fields : List (String × String)) : List UInt8 := terminate fieldSep (fields.map fieldLine)

@[simp] theorem encodeFields_nil : encodeFields [] = [] := rfl

@[simp] theorem encodeFields_cons (field : String × String) (fields : List (String × String)) :
    encodeFields (field :: fields) = fieldLine field ++ fieldSep :: encodeFields fields := terminate_cons _ _ _

@[simp] theorem encodeFields_append (fields fields' : List (String × String)) :
    encodeFields (fields ++ fields') = encodeFields fields ++ encodeFields fields' := by
  rw [encodeFields, List.map_append, terminate_append, encodeFields, encodeFields]

theorem pushField_eq (out : List UInt8) (key value : String) :
    pushField out key value = out ++ encodeFields [(key, value)] := by
  simp [pushField, fieldLine]

theorem foldl_pushField (key : String) (out : List UInt8) (values : List String) :
    values.foldl (fun out value => pushField out key value) out =
      out ++ encodeFields (values.map ((key, ·))) := by
  induction values generalizing out with
  | nil => simp
  | cons value values ih =>
    rw [List.foldl_cons, ih, pushField_eq, List.map_cons, List.append_assoc, ← encodeFields_append,
      List.singleton_append]

theorem asBytes_ofList (chars : List Char) :
    asBytes (String.ofList chars) = chars.flatMap String.utf8EncodeChar := by
  simp [asBytes, List.utf8Encode]

theorem asBytes_injective : Function.Injective asBytes := by
  intro s t h
  apply String.toByteArray_inj.mp
  apply ByteArray.ext
  exact Array.toList_inj.mp h

theorem ascii_mem_utf8EncodeChar {b : UInt8} {c : Char} (hb : b.toNat < 128)
    (h : b ∈ String.utf8EncodeChar c) : c.toNat = b.toNat := by
  have hc : c.toNat = c.val.toNat := rfl
  rw [hc]
  unfold String.utf8EncodeChar at h
  simp only at h
  have hsize : ∀ n : ℕ, (UInt8.ofNat n).toNat = n % 256 := fun n => UInt8.toNat_ofNat'
  split_ifs at h <;> simp only [List.mem_cons, List.not_mem_nil, or_false] at h
  · rw [h, hsize]
    omega
  · rcases h with h | h <;> rw [h, hsize] at hb <;> omega
  · rcases h with h | h | h <;> rw [h, hsize] at hb <;> omega
  · rcases h with h | h | h | h <;> rw [h, hsize] at hb <;> omega

theorem not_mem_asBytes {b : UInt8} {s : String} (hb : b.toNat < 128)
    (h : ∀ c ∈ s.toList, c.toNat ≠ b.toNat) : b ∉ asBytes s := by
  rw [← String.ofList_toList (s := s), asBytes_ofList, List.mem_flatMap]
  rintro ⟨c, hc, hmem⟩
  exact h c hc (ascii_mem_utf8EncodeChar hb hmem)

theorem digit_toNat {c : Char} (h : c.isDigit = true) : 48 ≤ c.toNat ∧ c.toNat ≤ 57 := by
  simp only [Char.isDigit, Bool.and_eq_true, decide_eq_true_eq] at h
  exact ⟨h.1, h.2⟩

theorem fieldSep_not_mem_toString (n : ℕ) : fieldSep ∉ asBytes (toString n) := by
  apply not_mem_asBytes (by decide)
  intro c hc
  have hdigit : c.isDigit = true := by
    have hc' : c ∈ (Nat.repr n).toList := hc
    rw [Nat.repr, String.toList_ofList] at hc'
    exact Nat.isDigit_of_mem_toDigits (by norm_num) (by norm_num) hc'
  have hrange := digit_toNat hdigit
  have hsep : fieldSep.toNat = 30 := rfl
  omega

theorem digitChar_injective {m n : ℕ} (hm : m < 10) (hn : n < 10) (h : m.digitChar = n.digitChar) :
    m = n := by
  interval_cases m <;> interval_cases n <;> first | rfl | exact absurd h (by decide)

theorem toDigits_injective {m n : ℕ} (h : Nat.toDigits 10 m = Nat.toDigits 10 n) : m = n := by
  have hsplit : ∀ k : ℕ, Nat.toDigits 10 k =
      if k < 10 then [k.digitChar] else Nat.toDigits 10 (k / 10) ++ [(k % 10).digitChar] :=
    fun k => Nat.toDigits_eq_if (by norm_num)
  induction m using Nat.strong_induction_on generalizing n with
  | _ m ih =>
    rw [hsplit m, hsplit n] at h
    split_ifs at h with hm hn hn
    · exact digitChar_injective hm hn (List.singleton_inj.mp h)
    · have hlen := congrArg List.length h
      have hpos := @Nat.length_toDigits_pos 10 (n / 10)
      simp only [List.length_append, List.length_singleton] at hlen
      omega
    · have hlen := congrArg List.length h
      have hpos := @Nat.length_toDigits_pos 10 (m / 10)
      simp only [List.length_append, List.length_singleton] at hlen
      omega
    · obtain ⟨hhigh, hlow⟩ := List.append_inj' h rfl
      have hdiv := ih (m / 10) (by omega) hhigh
      have hmod := digitChar_injective (by omega) (by omega) (List.singleton_inj.mp hlow)
      omega

theorem toString_injective {m n : ℕ} (h : toString m = toString n) : m = n :=
  toDigits_injective (String.ofList_injective h)

theorem hexDigit_toNat {n : ℕ} (h : n < 16) : 48 ≤ (hexDigit n).toNat := by
  interval_cases n <;> decide

theorem fieldSep_not_mem_sha256Hex (sha256 : List UInt8 → List UInt8) (bytes : List UInt8) :
    fieldSep ∉ asBytes (sha256Hex sha256 bytes) := by
  apply not_mem_asBytes (by decide)
  intro c hc
  rw [sha256Hex, hexEncode, String.toList_ofList, List.mem_flatMap] at hc
  obtain ⟨b, _, hc⟩ := hc
  have hlt := b.toNat_lt
  have hsep : fieldSep.toNat = 30 := rfl
  rcases List.mem_pair.mp hc with rfl | rfl
  · have := @hexDigit_toNat (b.toNat / 16) (by omega)
    omega
  · have := @hexDigit_toNat (b.toNat % 16) (by omega)
    omega

theorem hexDigit_injective {m n : ℕ} (hm : m < 16) (hn : n < 16) (h : hexDigit m = hexDigit n) : m = n := by
  interval_cases m <;> interval_cases n <;> first | rfl | exact absurd h (by decide)

theorem hexEncode_injective : Function.Injective hexEncode := by
  intro a b h
  have hchars := String.ofList_injective h
  clear h
  induction a generalizing b with
  | nil =>
    cases b with
    | nil => rfl
    | cons y b => simp at hchars
  | cons x a ih =>
    cases b with
    | nil => simp at hchars
    | cons y b =>
      simp only [List.flatMap_cons, List.cons_append, List.nil_append, List.cons.injEq] at hchars
      obtain ⟨hhigh, hlow, hrest⟩ := hchars
      have hx := x.toNat_lt
      have hy := y.toNat_lt
      have hdiv := hexDigit_injective (by omega) (by omega) hhigh
      have hmod := hexDigit_injective (by omega) (by omega) hlow
      have hxy : x = y := UInt8.toNat_inj.mp (by omega)
      rw [hxy, ih hrest]

theorem sha256Hex_injective {sha256 : List UInt8 → List UInt8} (h : Function.Injective sha256) :
    Function.Injective (sha256Hex sha256) := hexEncode_injective.comp h

theorem fieldSep_not_mem_fieldLine {key value : String} (hkey : fieldSep ∉ asBytes key)
    (hvalue : fieldSep ∉ asBytes value) : fieldSep ∉ fieldLine (key, value) := by
  rw [fieldLine, List.mem_append, List.mem_cons, not_or, not_or]
  exact ⟨hkey, by decide, hvalue⟩

def tabulated (table : List (List UInt8 × List UInt8)) (bytes : List UInt8) : List UInt8 :=
  (table.lookup bytes).getD (List.replicate 33 0 ++ bytes)

theorem tabulated_injective {table : List (List UInt8 × List UInt8)} (hdistinct : (table.map Prod.snd).Nodup)
    (hlength : ∀ entry ∈ table, entry.2.length = 32) : Function.Injective (tabulated table) := by
  have hlookup : ∀ {bytes digest}, table.lookup bytes = some digest → (bytes, digest) ∈ table := by
    intro bytes digest h
    obtain ⟨before, after, rfl, _⟩ := List.lookup_eq_some_iff.mp h
    simp
  intro a b h
  unfold tabulated at h
  cases ha : table.lookup a with
  | some d =>
    cases hb : table.lookup b with
    | some e =>
      rw [ha, hb, Option.getD_some, Option.getD_some] at h
      exact congrArg Prod.fst (List.inj_on_of_nodup_map hdistinct (hlookup ha) (hlookup hb) h)
    | none =>
      have hlen := congrArg List.length h
      have hd : d.length = 32 := hlength _ (hlookup ha)
      simp only [ha, hb, Option.getD_some, Option.getD_none, List.length_append, List.length_replicate] at hlen
      omega
  | none =>
    cases hb : table.lookup b with
    | some e =>
      have hlen := congrArg List.length h
      have he : e.length = 32 := hlength _ (hlookup hb)
      simp only [ha, hb, Option.getD_some, Option.getD_none, List.length_append, List.length_replicate] at hlen
      omega
    | none =>
      rw [ha, hb, Option.getD_none, Option.getD_none] at h
      exact List.append_cancel_left h

end CrashLab.Digest
