import Mathlib.Tactic

namespace CrashLab.Base64

def alphabet : List Char := "ABCDEFGHIJKLMNOPQRSTUVWXYZabcdefghijklmnopqrstuvwxyz0123456789-_".toList

def digit (n : ℕ) : Char := alphabet.getD n 'A'

def sextet (c : Char) : Option ℕ :=
  if 'A' ≤ c ∧ c ≤ 'Z' then some (c.toNat - 65)
  else if 'a' ≤ c ∧ c ≤ 'z' then some (c.toNat - 71)
  else if '0' ≤ c ∧ c ≤ '9' then some (c.toNat + 4)
  else if c = '-' ∨ c = '+' then some 62
  else if c = '_' ∨ c = '/' then some 63
  else none

def sextets : List UInt8 → List ℕ
  | [] => []
  | [a] => [a.toNat / 4, a.toNat % 4 * 16]
  | [a, b] => [a.toNat / 4, a.toNat % 4 * 16 + b.toNat / 16, b.toNat % 16 * 4]
  | a :: b :: c :: rest =>
    a.toNat / 4 :: (a.toNat % 4 * 16 + b.toNat / 16) :: (b.toNat % 16 * 4 + c.toNat / 64) :: c.toNat % 64 ::
      sextets rest

def bytes : List ℕ → List UInt8
  | a :: b :: c :: d :: rest =>
    UInt8.ofNat (a * 4 + b / 16) :: UInt8.ofNat (b % 16 * 16 + c / 4) :: UInt8.ofNat (c % 4 * 64 + d) :: bytes rest
  | [a, b, c] => [UInt8.ofNat (a * 4 + b / 16), UInt8.ofNat (b % 16 * 16 + c / 4)]
  | [a, b] => [UInt8.ofNat (a * 4 + b / 16)]
  | _ => []

def encode (data : List UInt8) : List Char := (sextets data).map digit

def decode (text : List Char) : List UInt8 := bytes (text.filterMap sextet)

theorem alphabet_eq : alphabet =
    ['A', 'B', 'C', 'D', 'E', 'F', 'G', 'H', 'I', 'J', 'K', 'L', 'M', 'N', 'O', 'P', 'Q', 'R', 'S', 'T',
      'U', 'V', 'W', 'X', 'Y', 'Z', 'a', 'b', 'c', 'd', 'e', 'f', 'g', 'h', 'i', 'j', 'k', 'l', 'm', 'n',
      'o', 'p', 'q', 'r', 's', 't', 'u', 'v', 'w', 'x', 'y', 'z', '0', '1', '2', '3', '4', '5', '6', '7',
      '8', '9', '-', '_'] :=
  String.toList_ofList

theorem sextet_digit {n : ℕ} (h : n < 64) : sextet (digit n) = some n := by
  rw [digit, alphabet_eq]
  interval_cases n <;> decide

theorem sextets_lt (data : List UInt8) : ∀ n ∈ sextets data, n < 64 := by
  fun_induction sextets data with
  | case1 => simp
  | case2 a =>
    have := a.toNat_lt
    simp only [List.mem_cons, List.not_mem_nil, or_false, forall_eq_or_imp, forall_eq]
    omega
  | case3 a b =>
    have := a.toNat_lt
    have := b.toNat_lt
    simp only [List.mem_cons, List.not_mem_nil, or_false, forall_eq_or_imp, forall_eq]
    omega
  | case4 a b c rest ih =>
    have := a.toNat_lt
    have := b.toNat_lt
    have := c.toNat_lt
    simp only [List.mem_cons, forall_eq_or_imp]
    exact ⟨by omega, by omega, by omega, by omega, ih⟩

theorem ofNat_eq {n : ℕ} {b : UInt8} (h : n = b.toNat) : UInt8.ofNat n = b := by rw [h, UInt8.ofNat_toNat]

theorem bytes_sextets (data : List UInt8) : bytes (sextets data) = data := by
  fun_induction sextets data with
  | case1 => rfl
  | case2 a =>
    have := a.toNat_lt
    rw [bytes, ofNat_eq (b := a) (by omega)]
  | case3 a b =>
    have := a.toNat_lt
    have := b.toNat_lt
    rw [bytes, ofNat_eq (b := a) (by omega), ofNat_eq (b := b) (by omega)]
  | case4 a b c rest ih =>
    have := a.toNat_lt
    have := b.toNat_lt
    have := c.toNat_lt
    rw [bytes, ih, ofNat_eq (b := a) (by omega), ofNat_eq (b := b) (by omega), ofNat_eq (b := c) (by omega)]

theorem filterMap_sextet {f : ℕ → Char} (hf : ∀ n < 64, sextet (f n) = some n) {l : List ℕ} (hl : ∀ n ∈ l, n < 64) :
    (l.map f).filterMap sextet = l := by
  rw [List.filterMap_map]
  induction l with
  | nil => rfl
  | cons n l ih =>
    rw [List.forall_mem_cons] at hl
    rw [List.filterMap_cons, Function.comp_apply, hf n hl.1, ih hl.2]

theorem decode_encode (data : List UInt8) : decode (encode data) = data := by
  rw [decode, encode, filterMap_sextet (fun _ => sextet_digit) (sextets_lt data), bytes_sextets]

section Standard

def standardDigit (n : ℕ) : Char := if n = 62 then '+' else if n = 63 then '/' else digit n

def encodeStandard (data : List UInt8) : List Char :=
  (sextets data).map standardDigit ++ List.replicate ((3 - data.length % 3) % 3) '='

theorem sextet_standardDigit {n : ℕ} (h : n < 64) : sextet (standardDigit n) = some n := by
  unfold standardDigit
  split_ifs with h62 h63
  · rw [h62]
    rfl
  · rw [h63]
    rfl
  · exact sextet_digit h

theorem decode_encodeStandard (data : List UInt8) : decode (encodeStandard data) = data := by
  have hpadding : ∀ n, (List.replicate n '=').filterMap sextet = [] := by
    intro n
    rw [List.filterMap_eq_nil_iff]
    intro c hc
    rw [List.eq_of_mem_replicate hc]
    rfl
  rw [decode, encodeStandard, List.filterMap_append, hpadding, List.append_nil,
    filterMap_sextet (fun _ => sextet_standardDigit) (sextets_lt data), bytes_sextets]

end Standard

end CrashLab.Base64
