import Mathlib.Tactic

namespace CrashLab.Splices

variable {α : Type*}

/-- From `start` on, `removed` elements make way for the inserted ones. -/
structure Splice (α : Type*) where
  start : ℕ
  removed : ℕ
  inserted : List α
deriving DecidableEq, Repr

namespace Splice

def insertAt (start : ℕ) (inserted : List α) : Splice α := ⟨start, 0, inserted⟩

def removeAt (start removed : ℕ) : Splice α := ⟨start, removed, []⟩

def putAt (start : ℕ) (a : α) : Splice α := ⟨start, 1, [a]⟩

def shift (n : ℕ) (s : Splice α) : Splice α := ⟨n + s.start, s.removed, s.inserted⟩

def run (s : Splice α) (l : List α) : List α := l.take s.start ++ s.inserted ++ l.drop (s.start + s.removed)

def Inside (s : Splice α) (l : List α) : Prop := s.start + s.removed ≤ l.length

/-- What a splice needs to make `target`, when the result is cut at `limit`: outside the window the lists
agree already, and inside it `target` holds the inserted elements. -/
structure Fits (s : Splice α) (limit : ℕ) (l target : List α) : Prop where
  before : target.take s.start = (l.take s.start).take limit
  window : (target.drop s.start).take s.inserted.length = s.inserted.take (limit - s.start)
  after : target.drop (s.start + s.inserted.length) =
    (l.drop (s.start + s.removed)).take (limit - (s.start + s.inserted.length))

variable {s : Splice α} {l target : List α}

theorem length_run (h : s.Inside l) : (s.run l).length + s.removed = l.length + s.inserted.length := by
  unfold Inside at h
  simp only [run, List.length_append, List.length_take, List.length_drop]
  omega

theorem length_before (h : s.Inside l) : (l.take s.start).length = s.start := by
  unfold Inside at h
  rw [List.length_take]
  omega

theorem take_run (h : s.Inside l) : (s.run l).take s.start = l.take s.start := by
  rw [run, List.append_assoc, List.take_left' (length_before h)]

theorem take_drop_run (h : s.Inside l) : ((s.run l).drop s.start).take s.inserted.length = s.inserted := by
  rw [run, List.append_assoc, List.drop_left' (length_before h), List.take_left]

theorem drop_run (h : s.Inside l) :
    (s.run l).drop (s.start + s.inserted.length) = l.drop (s.start + s.removed) := by
  have hmiddle : (l.take s.start ++ s.inserted).length = s.start + s.inserted.length := by
    rw [List.length_append, length_before h]
  rw [run, List.drop_left' hmiddle]

theorem take_run_eq_iff (h : s.Inside l) (limit : ℕ) : (s.run l).take limit = target ↔ s.Fits limit l target := by
  constructor
  · rintro rfl
    refine ⟨?_, ?_, ?_⟩
    · rw [List.take_take, min_comm, ← List.take_take, take_run h]
    · rw [List.drop_take, List.take_take, min_comm, ← List.take_take, take_drop_run h]
    · rw [List.drop_take, drop_run h]
  · intro hfits
    have hsplit : target = target.take s.start ++ ((target.drop s.start).take s.inserted.length ++
        (target.drop s.start).drop s.inserted.length) := by
      rw [List.take_append_drop, List.take_append_drop]
    rw [List.drop_drop, hfits.before, hfits.window, hfits.after] at hsplit
    rw [hsplit, run, List.append_assoc, List.take_append, List.take_append, length_before h, Nat.sub_sub]

theorem Inside.append (h : s.Inside l) (r : List α) : s.Inside (l ++ r) := by
  unfold Inside at h ⊢
  rw [List.length_append]
  omega

theorem Inside.shift (h : s.Inside l) (front : List α) : (s.shift front.length).Inside (front ++ l) := by
  unfold Inside at h ⊢
  simp only [List.length_append, Splice.shift]
  omega

theorem run_append (h : s.Inside l) (r : List α) : s.run (l ++ r) = s.run l ++ r := by
  unfold Inside at h
  rw [run, List.take_append_of_le_length (by omega), List.drop_append_of_le_length h, run]
  exact (List.append_assoc _ _ _).symm

theorem run_shift (s : Splice α) (front l : List α) : (s.shift front.length).run (front ++ l) = front ++ s.run l := by
  rw [run, shift, List.take_length_add_append, Nat.add_assoc, List.drop_length_add_append, List.append_assoc,
    List.append_assoc, run, List.append_assoc]

theorem run_middle {front middle behind : List α} (inserted : List α) {start removed : ℕ} (hstart : front.length = start)
    (hremoved : middle.length = removed) :
    (Splice.mk start removed inserted).run (front ++ (middle ++ behind)) = front ++ (inserted ++ behind) := by
  subst hstart hremoved
  rw [run, List.take_left, ← List.drop_drop, List.drop_left, List.drop_left, List.append_assoc]

theorem run_whole (l inserted : List α) : (Splice.mk 0 l.length inserted).run l = inserted := by
  rw [run, List.take_zero, List.nil_append, Nat.zero_add, List.drop_length, List.append_nil]

theorem run_putAt (l : List α) {start : ℕ} (a : α) (h : start < l.length) : (putAt start a).run l = l.set start a := by
  rw [run, putAt, List.set_eq_take_append_cons_drop, if_pos h, List.append_assoc]
  rfl

theorem run_putAt_eq_iff {start : ℕ} {a : α} (h : start < l.length) :
    (putAt start a).run l = l ↔ l[start]? = some a := by
  rw [run_putAt l a h]
  constructor
  · intro hset
    rw [← List.getElem?_set_self h, hset]
  · intro hget
    obtain ⟨_, rfl⟩ := List.getElem?_eq_some_iff.mp hget
    exact List.set_getElem_self h

end Splice

end CrashLab.Splices
