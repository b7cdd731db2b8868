import Mathlib.Tactic

namespace CrashLab.BitGroups

section Bits

def bitsOf (w n : ℕ) : List Bool := (List.range w).map fun i => n.testBit (w - 1 - i)

@[simp] theorem length_bitsOf (w n : ℕ) : (bitsOf w n).length = w := by simp [bitsOf]

theorem getElem?_bitsOf {w n i : ℕ} (h : i < w) : (bitsOf w n)[i]? = some (n.testBit (w - 1 - i)) := by
  simp [bitsOf, h]

theorem bitsOf_congr {w m n : ℕ} (h : ∀ i < w, m.testBit i = n.testBit i) : bitsOf w m = bitsOf w n := by
  apply List.map_congr_left
  intro i hi
  rw [List.mem_range] at hi
  exact h _ (by omega)

theorem bitsOf_add (v w n : ℕ) : bitsOf (v + w) n = bitsOf v (n >>> w) ++ bitsOf w n := by
  rw [bitsOf, List.range_add, List.map_append, List.map_map]
  congr 1
  · apply List.map_congr_left
    intro i hi
    rw [List.mem_range] at hi
    rw [Nat.testBit_shiftRight]
    congr 1
    omega
  · apply List.map_congr_left
    intro i hi
    rw [List.mem_range] at hi
    rw [Function.comp_apply]
    congr 1
    omega

theorem bitsOf_injOn {w m n : ℕ} (hm : m < 2 ^ w) (hn : n < 2 ^ w) (h : bitsOf w m = bitsOf w n) : m = n := by
  apply Nat.eq_of_testBit_eq
  intro i
  by_cases hi : i < w
  · have hbit := congrArg (fun l => l[w - 1 - i]?) h
    rw [getElem?_bitsOf (by omega), getElem?_bitsOf (by omega), Option.some.injEq] at hbit
    have hback : w - 1 - (w - 1 - i) = i := by omega
    rwa [hback] at hbit
  · have hle : 2 ^ w ≤ 2 ^ i := Nat.pow_le_pow_right (by norm_num) (not_lt.mp hi)
    rw [Nat.testBit_lt_two_pow (hm.trans_le hle), Nat.testBit_lt_two_pow (hn.trans_le hle)]

theorem length_flatMap_bitsOf (w : ℕ) (values : List ℕ) : (values.flatMap (bitsOf w)).length = w * values.length := by
  simp [List.length_flatMap, Nat.mul_comm]

theorem flatMap_bitsOf_injOn {w : ℕ} {values values' : List ℕ} (hlength : values.length = values'.length)
    (h : ∀ v ∈ values, v < 2 ^ w) (h' : ∀ v ∈ values', v < 2 ^ w)
    (heq : values.flatMap (bitsOf w) = values'.flatMap (bitsOf w)) : values = values' := by
  induction values generalizing values' with
  | nil => exact (List.length_eq_zero_iff.mp hlength.symm).symm
  | cons v values ih =>
    cases values' with
    | nil => cases hlength
    | cons v' values' =>
      rw [List.forall_mem_cons] at h h'
      rw [List.flatMap_cons, List.flatMap_cons] at heq
      obtain ⟨hfirst, hrest⟩ := List.append_inj heq (by rw [length_bitsOf, length_bitsOf])
      rw [bitsOf_injOn h.1 h'.1 hfirst, ih (Nat.succ.inj hlength) h.2 h'.2 hrest]

end Bits

/-- A word of 32 bits, of which the low `bits` wait to be taken. -/
structure Window where
  acc : ℕ
  bits : ℕ
deriving DecidableEq, Repr

namespace Window

def empty : Window := ⟨0, 0⟩

def push (w : ℕ) (win : Window) (v : ℕ) : Window := ⟨(win.acc <<< w) % 2 ^ 32 ||| v, win.bits + w⟩

def pop (w : ℕ) (win : Window) : Window := ⟨win.acc, win.bits - w⟩

def top (w : ℕ) (win : Window) : ℕ := (win.acc >>> (win.bits - w)) &&& (2 ^ w - 1)

def content (win : Window) : List Bool := bitsOf win.bits win.acc

@[simp] theorem length_content (win : Window) : win.content.length = win.bits := length_bitsOf _ _

variable {w v : ℕ} {win : Window}

theorem top_lt : win.top w < 2 ^ w := by
  rw [top, Nat.and_two_pow_sub_one_eq_mod]
  exact Nat.mod_lt _ (by positivity)

theorem content_push (hv : v < 2 ^ w) (hbits : win.bits + w ≤ 32) :
    (win.push w v).content = win.content ++ bitsOf w v := by
  rw [content, push, bitsOf_add]
  congr 1
  · apply bitsOf_congr
    intro i hi
    have hhigh : v.testBit (w + i) = false :=
      Nat.testBit_lt_two_pow (hv.trans_le (Nat.pow_le_pow_right (by norm_num) (by omega)))
    rw [Nat.testBit_shiftRight, Nat.testBit_or, hhigh, Nat.testBit_mod_two_pow, Nat.testBit_shiftLeft]
    simp [show w + i < 32 by omega]
  · apply bitsOf_congr
    intro i hi
    rw [Nat.testBit_or, Nat.testBit_mod_two_pow, Nat.testBit_shiftLeft]
    simp [show ¬w ≤ i by omega]

theorem content_pop (h : w ≤ win.bits) : win.content = bitsOf w (win.top w) ++ (win.pop w).content := by
  obtain ⟨acc, bits⟩ := win
  dsimp only at h
  have hsplit : bits = w + (bits - w) := by omega
  rw [content, pop, content]
  dsimp only
  conv_lhs => rw [hsplit, bitsOf_add]
  congr 1
  apply bitsOf_congr
  intro i hi
  rw [top, Nat.and_two_pow_sub_one_eq_mod, Nat.testBit_mod_two_pow]
  simp [hi]

/-- `while bits >= w`, with as many rounds as there are bits. -/
def drain (w : ℕ) : ℕ → Window → List ℕ × Window
  | 0, win => ([], win)
  | rounds + 1, win =>
    if w ≤ win.bits then ((win.top w) :: (drain w rounds (win.pop w)).1, (drain w rounds (win.pop w)).2)
    else ([], win)

/-- Values of `v` bits go in one by one, groups of `w` bits come out. -/
def regroup (v w : ℕ) : Window → List ℕ → List ℕ × Window
  | win, [] => ([], win)
  | win, value :: values =>
    let (groups, win) := drain w (win.bits + v) (win.push v value)
    let (rest, win) := regroup v w win values
    (groups ++ rest, win)

/-- What a loop that takes groups of `w` bits out of a window has done. -/
structure Grouped (w : ℕ) (before : List Bool) (result : List ℕ × Window) : Prop where
  bits : result.1.flatMap (bitsOf w) ++ result.2.content = before
  less : result.2.bits < w
  groups : ∀ group ∈ result.1, group < 2 ^ w

theorem drain_grouped (hw : 0 < w) {rounds : ℕ} {win : Window} (h : win.bits ≤ rounds) :
    Grouped w win.content (drain w rounds win) := by
  induction rounds generalizing win with
  | zero =>
    refine ⟨rfl, ?_, fun _ hmem => absurd hmem List.not_mem_nil⟩
    change win.bits < w
    omega
  | succ rounds ih =>
    rw [drain]
    split_ifs with hle
    · have hpop : (win.pop w).bits ≤ rounds := by
        change win.bits - w ≤ rounds
        omega
      obtain ⟨hbits, hless, hgroups⟩ := ih hpop
      refine ⟨?_, hless, ?_⟩
      · rw [List.flatMap_cons, List.append_assoc, hbits, ← content_pop hle]
      · rw [List.forall_mem_cons]
        exact ⟨top_lt, hgroups⟩
    · exact ⟨rfl, not_le.mp hle, fun _ hmem => absurd hmem List.not_mem_nil⟩

theorem regroup_grouped {v : ℕ} (hw : 0 < w) (hfits : w + v ≤ 33) {values : List ℕ} {win : Window}
    (hbits : win.bits < w) (hvalues : ∀ value ∈ values, value < 2 ^ v) :
    Grouped w (win.content ++ values.flatMap (bitsOf v)) (regroup v w win values) := by
  induction values generalizing win with
  | nil =>
    refine ⟨?_, hbits, fun _ hmem => absurd hmem List.not_mem_nil⟩
    rw [List.flatMap_nil, List.append_nil]
    rfl
  | cons value values ih =>
    rw [List.forall_mem_cons] at hvalues
    have hpush : (win.push v value).content = win.content ++ bitsOf v value := content_push hvalues.1 (by omega)
    have hdrain : Grouped w (win.push v value).content (drain w (win.bits + v) (win.push v value)) :=
      drain_grouped hw (le_refl _)
    obtain ⟨hrest, hless, hgroups⟩ := ih hdrain.less hvalues.2
    rw [regroup]
    refine ⟨?_, hless, ?_⟩
    · rw [List.flatMap_append, List.append_assoc, hrest, ← List.append_assoc, hdrain.bits, hpush,
        List.flatMap_cons, List.append_assoc]
    · intro group hmem
      rcases List.mem_append.mp hmem with hmem | hmem
      · exact hdrain.groups group hmem
      · exact hgroups group hmem

end Window

end CrashLab.BitGroups
