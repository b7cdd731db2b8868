import Mathlib.Order.Interval.Finset.Basic
import Mathlib.Tactic

namespace CrashLab.LeastWalks

/-! A search that finds the least point past a given one, and the walk that repeats it up to a bound. -/

variable {α : Type*} [LinearOrder α]

/-- What `next` finds past a point is the least there that `P` holds of; it may also find nothing. -/
structure FindsLeast (P : α → Prop) (next : α → Option α) : Prop where
  lt : ∀ {a t}, next a = some t → a < t
  holds : ∀ {a t}, next a = some t → P t
  le : ∀ {a t u}, next a = some t → a < u → P u → t ≤ u

/-- The points found one after the other, each from the one before, at most `fuel` of them. -/
def walk (next : α → Option α) (bound : α) : ℕ → α → List α
  | 0, _ => []
  | fuel + 1, cursor =>
    match next cursor with
    | none => []
    | some t => if bound < t then [] else t :: walk next bound fuel t

attribute [grind =] walk

variable {P : α → Prop} {next : α → Option α} {bound a t u : α} {fuel : ℕ}

theorem walk_succ_of_none (h : next a = none) : walk next bound (fuel + 1) a = [] := by
  simp [walk, h]

theorem walk_succ_of_lt (h : next a = some t) (ht : bound < t) : walk next bound (fuel + 1) a = [] := by
  simp [walk, h, ht]

theorem walk_succ_of_le (h : next a = some t) (ht : t ≤ bound) :
    walk next bound (fuel + 1) a = t :: walk next bound fuel t := by
  simp [walk, h, not_lt.mpr ht]

theorem walk_cases (next : α → Option α) (bound : α) (fuel : ℕ) (a : α) :
    walk next bound fuel a = [] ∨ ∃ n t, fuel = n + 1 ∧ next a = some t ∧ t ≤ bound ∧
      walk next bound fuel a = t :: walk next bound n t := by
  cases fuel with
  | zero => exact Or.inl rfl
  | succ n =>
    cases h : next a with
    | none => exact Or.inl (walk_succ_of_none h)
    | some t =>
      rcases lt_or_ge bound t with ht | ht
      · exact Or.inl (walk_succ_of_lt h ht)
      · exact Or.inr ⟨n, t, rfl, rfl, ht, walk_succ_of_le h ht⟩

theorem walk_eq_nil_of_forall (h : ∀ t, next a = some t → bound < t) : walk next bound fuel a = [] := by
  rcases walk_cases next bound fuel a with hnil | ⟨n, t, -, ht, hle, -⟩
  · exact hnil
  · exact absurd (h t ht) (not_lt.mpr hle)

theorem next_of_walk_eq_nil (hfuel : 0 < fuel) (h : walk next bound fuel a = []) (ht : next a = some t) :
    bound < t := by
  obtain ⟨n, rfl⟩ := Nat.exists_eq_succ_of_ne_zero hfuel.ne'
  by_contra hle
  rw [walk_succ_of_le ht (not_lt.mp hle)] at h
  cases h

theorem mem_walk (find : FindsLeast P next) (h : u ∈ walk next bound fuel a) : a < u ∧ u ≤ bound ∧ P u := by
  induction fuel generalizing a with
  | zero => cases h
  | succ n ih =>
    rcases walk_cases next bound (n + 1) a with hnil | ⟨m, t, hm, ht, hle, hwalk⟩
    · rw [hnil] at h
      cases h
    · rw [hwalk, ← Nat.succ.inj hm] at h
      have hlt := find.lt ht
      rcases List.mem_cons.mp h with rfl | h
      · exact ⟨hlt, hle, find.holds ht⟩
      · obtain ⟨htu, hbound, hP⟩ := ih h
        exact ⟨hlt.trans htu, hbound, hP⟩

theorem walk_pairwise (find : FindsLeast P next) : (walk next bound fuel a).Pairwise (· < ·) := by
  induction fuel generalizing a with
  | zero => exact List.Pairwise.nil
  | succ n ih =>
    rcases walk_cases next bound (n + 1) a with hnil | ⟨m, t, hm, ht, hle, hwalk⟩
    · rw [hnil]
      exact List.Pairwise.nil
    · rw [hwalk, ← Nat.succ.inj hm]
      exact List.Pairwise.cons (fun u hu => (mem_walk find hu).1) ih

theorem mem_walk_of_le_last (find : FindsLeast P next) (hlast : (walk next bound fuel a).getLast? = some t)
    (hlt : a < u) (hle : u ≤ t) (hu : P u) : u ∈ walk next bound fuel a := by
  induction fuel generalizing a with
  | zero => cases hlast
  | succ n ih =>
    rcases walk_cases next bound (n + 1) a with hnil | ⟨m, s, hm, hs, hbound, hwalk⟩
    · rw [hnil] at hlast
      cases hlast
    · rw [hwalk, ← Nat.succ.inj hm] at hlast ⊢
      rcases (find.le hs hlt hu).eq_or_lt with rfl | hsu
      · exact List.mem_cons_self
      · apply List.mem_cons_of_mem
        cases hrest : walk next bound n s with
        | nil =>
          rw [hrest, List.getLast?_singleton, Option.some_inj] at hlast
          exact absurd hle (not_le.mpr (hlast ▸ hsu))
        | cons v rest =>
          rw [hrest, List.getLast?_cons_cons, ← hrest] at hlast
          rw [← hrest]
          exact ih hlast hsu

theorem mem_walk_iff (find : FindsLeast P next) (hlast : (walk next bound fuel a).getLast? = some t) :
    u ∈ walk next bound fuel a ↔ a < u ∧ u ≤ t ∧ P u := by
  constructor
  · intro hu
    obtain ⟨hlt, -, hP⟩ := mem_walk find hu
    refine ⟨hlt, ?_, hP⟩
    obtain ⟨init, hinit⟩ := List.getLast?_eq_some_iff.mp hlast
    have hpairwise : (walk next bound fuel a).Pairwise (· < ·) := walk_pairwise find
    rw [hinit, List.pairwise_append] at hpairwise
    rw [hinit, List.mem_append, List.mem_singleton] at hu
    rcases hu with hu | rfl
    · exact (hpairwise.2.2 u hu t (List.mem_singleton_self t)).le
    · exact le_rfl
  · rintro ⟨hlt, hle, hP⟩
    exact mem_walk_of_le_last find hlast hlt hle hP

theorem getLast_walk (find : FindsLeast P next) (hlast : (walk next bound fuel a).getLast? = some t) :
    a < t ∧ t ≤ bound ∧ P t :=
  mem_walk find (List.mem_of_getLast? hlast)

theorem length_walk [LocallyFiniteOrder α] [DecidablePred P] (find : FindsLeast P next)
    (hlast : (walk next bound fuel a).getLast? = some t) :
    (walk next bound fuel a).length = ((Finset.Ioc a t).filter P).card := by
  have hnodup : (walk next bound fuel a).Nodup := (walk_pairwise find).imp ne_of_lt
  rw [← List.toFinset_card_of_nodup hnodup]
  congr 1
  ext u
  rw [List.mem_toFinset, mem_walk_iff find hlast, Finset.mem_filter, Finset.mem_Ioc, and_assoc]

theorem length_walk_le : (walk next bound fuel a).length ≤ fuel := by
  induction fuel generalizing a with
  | zero => exact le_rfl
  | succ n ih =>
    rcases walk_cases next bound (n + 1) a with hnil | ⟨m, t, hm, ht, hle, hwalk⟩
    · simp [hnil]
    · rw [hwalk, ← Nat.succ.inj hm, List.length_cons]
      exact Nat.succ_le_succ ih

theorem walk_stopped (hlast : (walk next bound fuel a).getLast? = some t)
    (hlt : (walk next bound fuel a).length < fuel) (hu : next t = some u) : bound < u := by
  induction fuel generalizing a with
  | zero => cases hlast
  | succ n ih =>
    rcases walk_cases next bound (n + 1) a with hnil | ⟨m, s, hm, hs, hle, hwalk⟩
    · rw [hnil] at hlast
      cases hlast
    · rw [hwalk, ← Nat.succ.inj hm] at hlast hlt
      rw [List.length_cons] at hlt
      cases hrest : walk next bound n s with
      | nil =>
        rw [hrest, List.getLast?_singleton, Option.some_inj] at hlast
        rw [hrest] at hlt
        exact next_of_walk_eq_nil (Nat.succ_lt_succ_iff.mp hlt) hrest (hlast ▸ hu)
      | cons v rest =>
        rw [hrest, List.getLast?_cons_cons, ← hrest] at hlast
        exact ih hlast (Nat.succ_lt_succ_iff.mp hlt)

end CrashLab.LeastWalks
