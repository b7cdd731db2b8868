import Mathlib.Tactic

namespace CrashLab.JsStrings

/-- A string of the language: any sequence of UTF-16 code units, lone surrogates included. -/
abbrev JsString := List UInt16

instance : LawfulBEq JsString := inferInstance

def isHigh (u : UInt16) : Bool := 0xD800 ≤ u.toNat && u.toNat < 0xDC00

def isLow (u : UInt16) : Bool := 0xDC00 ≤ u.toNat && u.toNat < 0xE000

def isSurrogate (u : UInt16) : Bool := isHigh u || isLow u

def units (c : Char) : JsString :=
  if c.toNat < 0x10000 then [UInt16.ofNat c.toNat]
  else
    [UInt16.ofNat (0xD800 + (c.toNat - 0x10000) / 0x400), UInt16.ofNat (0xDC00 + (c.toNat - 0x10000) % 0x400)]

def ofString (s : String) : JsString := s.toList.flatMap units

def charOfUnit (u : UInt16) : Char := Char.ofNat u.toNat

def charOfPair (high low : UInt16) : Char :=
  Char.ofNat (0x10000 + (high.toNat - 0xD800) * 0x400 + (low.toNat - 0xDC00))

theorem toNat_charOfNat {n : ℕ} (h : n < 0xD800 ∨ 0xDFFF < n ∧ n < 0x110000) : (Char.ofNat n).toNat = n := by
  rw [Char.ofNat, dif_pos h]
  rfl

theorem toNat_charOfUnit {u : UInt16} (h : isSurrogate u = false) : (charOfUnit u).toNat = u.toNat := by
  have hlt := u.toNat_lt
  simp only [isSurrogate, isHigh, isLow, Bool.or_eq_false_iff, Bool.and_eq_false_iff, decide_eq_false_iff_not] at h
  apply toNat_charOfNat
  omega

theorem toNat_charOfPair {high low : UInt16} (hhigh : isHigh high = true) (hlow : isLow low = true) :
    (charOfPair high low).toNat = 0x10000 + (high.toNat - 0xD800) * 0x400 + (low.toNat - 0xDC00) := by
  simp only [isHigh, isLow, Bool.and_eq_true, decide_eq_true_eq] at hhigh hlow
  apply toNat_charOfNat
  omega

theorem units_charOfUnit {u : UInt16} (h : isSurrogate u = false) : units (charOfUnit u) = [u] := by
  have hlt := u.toNat_lt
  rw [units, toNat_charOfUnit h, if_pos (by omega), UInt16.ofNat_toNat]

theorem units_charOfPair {high low : UInt16} (hhigh : isHigh high = true) (hlow : isLow low = true) :
    units (charOfPair high low) = [high, low] := by
  rw [units, toNat_charOfPair hhigh hlow]
  simp only [isHigh, isLow, Bool.and_eq_true, decide_eq_true_eq] at hhigh hlow
  rw [if_neg (by omega)]
  have hfirst : 0xD800 + (0x10000 + (high.toNat - 0xD800) * 0x400 + (low.toNat - 0xDC00) - 0x10000) / 0x400 =
      high.toNat := by omega
  have hsecond : 0xDC00 + (0x10000 + (high.toNat - 0xD800) * 0x400 + (low.toNat - 0xDC00) - 0x10000) % 0x400 =
      low.toNat := by omega
  rw [hfirst, hsecond, UInt16.ofNat_toNat, UInt16.ofNat_toNat]

theorem units_cut {c d : Char} {s t : JsString} (h : units c ++ s = units d ++ t) : c = d ∧ s = t := by
  have hc := c.valid
  have hd := d.valid
  have hcn : c.val.toNat = c.toNat := rfl
  have hdn : d.val.toNat = d.toNat := rfl
  unfold UInt32.isValidChar Nat.isValidChar at hc hd
  have hsize : ∀ n : ℕ, (UInt16.ofNat n).toNat = n % 65536 := fun n => UInt16.toNat_ofNat'
  have hinj : ∀ m n : ℕ, UInt16.ofNat m = UInt16.ofNat n → m % 65536 = n % 65536 := by
    intro m n hmn
    rw [← hsize, ← hsize, hmn]
  have hchar : c.toNat = d.toNat → c = d := fun h => Char.toNat_inj.mp h
  unfold units at h
  split_ifs at h <;> simp only [List.cons_append, List.nil_append, List.cons.injEq] at h
  · have := hinj _ _ h.1
    exact ⟨hchar (by omega), h.2⟩
  · have := hinj _ _ h.1
    omega
  · have := hinj _ _ h.1
    omega
  · have := hinj _ _ h.1
    have := hinj _ _ h.2.1
    exact ⟨hchar (by omega), h.2.2⟩

theorem units_ne_nil (c : Char) : units c ≠ [] := by
  unfold units
  split_ifs <;> simp

theorem ofString_injective : Function.Injective ofString := by
  intro a b h
  apply String.toList_inj.mp
  unfold ofString at h
  generalize a.toList = s at h ⊢
  generalize b.toList = t at h ⊢
  induction s generalizing t with
  | nil =>
    cases t with
    | nil => rfl
    | cons d t => simp [units_ne_nil] at h
  | cons c s ih =>
    cases t with
    | nil => simp [units_ne_nil] at h
    | cons d t =>
      rw [List.flatMap_cons, List.flatMap_cons] at h
      obtain ⟨rfl, hrest⟩ := units_cut h
      rw [ih t hrest]

def isSpace (u : UInt16) : Bool :=
  (0x09 ≤ u.toNat && u.toNat ≤ 0x0D) || (0x2000 ≤ u.toNat && u.toNat ≤ 0x200A) ||
    [0x20, 0xA0, 0x1680, 0x2028, 0x2029, 0x202F, 0x205F, 0x3000, 0xFEFF].contains u.toNat

def trim (s : JsString) : JsString := ((s.dropWhile isSpace).reverse.dropWhile isSpace).reverse

def includes (s part : JsString) : Bool := decide (part <:+: s)

/-- The order `sort` puts strings in: code unit by code unit. -/
def sortKey (s : JsString) : List ℕ := s.map UInt16.toNat

def lowerAscii (s : JsString) : JsString :=
  s.map fun u => if 0x41 ≤ u.toNat ∧ u.toNat ≤ 0x5A then UInt16.ofNat (u.toNat + 0x20) else u

end CrashLab.JsStrings
