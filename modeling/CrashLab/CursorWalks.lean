import Mathlib.Tactic

namespace CrashLab.CursorWalks

inductive Event where
  | read (length : ℕ) (offset : ℤ)
  | move (offset target : ℤ)
deriving DecidableEq, Repr

def Event.Sound : Event → Prop
  | read length offset => 0 ≤ offset ∧ offset < length
  | move offset target => offset ≤ target

inductive Outcome (ε α : Type) where
  | done (value : α)
  | thrown (error : ε)
  | unfinished
deriving DecidableEq, Repr

structure Walk (ε α : Type) where
  outcome : Outcome ε α
  events : List Event
deriving DecidableEq, Repr

namespace Walk

variable {ε α β : Type}

def done (a : α) : Walk ε α := ⟨.done a, []⟩

def thrown (error : ε) : Walk ε α := ⟨.thrown error, []⟩

def unfinished : Walk ε α := ⟨.unfinished, []⟩

def andThen (x : Walk ε α) (f : α → Walk ε β) : Walk ε β :=
  match x.outcome with
  | .done a => ⟨(f a).outcome, x.events ++ (f a).events⟩
  | .thrown error => ⟨.thrown error, x.events⟩
  | .unfinished => ⟨.unfinished, x.events⟩

instance : Monad (Walk ε) where
  pure := done
  bind := andThen

def log (event : Event) : Walk ε Unit := ⟨.done (), [event]⟩

def Sound (x : Walk ε α) : Prop := ∀ event ∈ x.events, event.Sound

def Finished (x : Walk ε α) : Prop := x.outcome ≠ .unfinished

theorem bind_of_done {x : Walk ε α} {a : α} (h : x.outcome = .done a) (f : α → Walk ε β) :
    x >>= f = ⟨(f a).outcome, x.events ++ (f a).events⟩ := by
  change x.andThen f = _
  rw [andThen, h]

theorem outcome_bind_of_done {x : Walk ε α} {a : α} (h : x.outcome = .done a) (f : α → Walk ε β) :
    (x >>= f).outcome = (f a).outcome := by rw [bind_of_done h]

theorem sound_bind {x : Walk ε α} {f : α → Walk ε β} :
    (x >>= f).Sound ↔ x.Sound ∧ ∀ a, x.outcome = .done a → (f a).Sound := by
  change (x.andThen f).Sound ↔ _
  unfold andThen Sound
  cases x.outcome with
  | done a => simp [or_imp, forall_and]
  | thrown error => simp
  | unfinished => simp

theorem sound_bind_of_done {x : Walk ε α} {a : α} (h : x.outcome = .done a) {f : α → Walk ε β} :
    (x >>= f).Sound ↔ x.Sound ∧ (f a).Sound := by
  rw [sound_bind, h]
  simp

theorem finished_bind {x : Walk ε α} {f : α → Walk ε β} :
    (x >>= f).Finished ↔ x.Finished ∧ ∀ a, x.outcome = .done a → (f a).Finished := by
  change (x.andThen f).Finished ↔ _
  unfold andThen Finished
  cases x.outcome with
  | done a => simp
  | thrown error => simp
  | unfinished => simp

theorem finished_bind_of_done {x : Walk ε α} {a : α} (h : x.outcome = .done a) {f : α → Walk ε β} :
    (x >>= f).Finished ↔ (f a).Finished := by
  rw [finished_bind, Finished, h]
  simp

theorem outcome_bind_eq_done {x : Walk ε α} {f : α → Walk ε β} {b : β} :
    (x >>= f).outcome = .done b ↔ ∃ a, x.outcome = .done a ∧ (f a).outcome = .done b := by
  change (x.andThen f).outcome = _ ↔ _
  unfold andThen
  cases x.outcome with
  | done a => simp
  | thrown error => simp
  | unfinished => simp

@[simp] theorem sound_pure (a : α) : (pure a : Walk ε α).Sound := fun _ h => absurd h List.not_mem_nil

@[simp] theorem sound_thrown (error : ε) : (thrown error : Walk ε α).Sound := fun _ h => absurd h List.not_mem_nil

@[simp] theorem sound_unfinished : (unfinished : Walk ε α).Sound := fun _ h => absurd h List.not_mem_nil

@[simp] theorem sound_log (event : Event) : (log event : Walk ε Unit).Sound ↔ event.Sound := by
  simp [log, Sound]

@[simp] theorem outcome_pure (a : α) : (pure a : Walk ε α).outcome = .done a := rfl

@[simp] theorem outcome_log (event : Event) : (log event : Walk ε Unit).outcome = .done () := rfl

@[simp] theorem finished_pure (a : α) : (pure a : Walk ε α).Finished := nofun

@[simp] theorem finished_thrown (error : ε) : (thrown error : Walk ε α).Finished := nofun

def Returns (x : Walk ε α) : Prop := ∃ a, x.outcome = .done a

theorem Returns.finished {x : Walk ε α} (h : x.Returns) : x.Finished := by
  obtain ⟨a, ha⟩ := h
  rw [Finished, ha]
  nofun

theorem Returns.bind {x : Walk ε α} {f : α → Walk ε β} (hx : x.Returns) (hf : ∀ a, (f a).Returns) :
    (x >>= f).Returns := by
  obtain ⟨a, ha⟩ := hx
  rw [Returns, outcome_bind_of_done ha]
  exact hf a

@[simp] theorem returns_pure (a : α) : (pure a : Walk ε α).Returns := ⟨a, rfl⟩

theorem not_finished_unfinished : ¬ (unfinished : Walk ε α).Finished := fun h => h rfl

end Walk

section Arrays

variable {ε α : Type}

def At (data rest : List α) (offset : ℤ) : Prop := ∃ front, data = front ++ rest ∧ offset = front.length

theorem At.start (data : List α) : At data data 0 := ⟨[], rfl, rfl⟩

theorem At.nonneg {data rest : List α} {offset : ℤ} (h : At data rest offset) : 0 ≤ offset := by
  obtain ⟨front, -, rfl⟩ := h
  exact Int.natCast_nonneg _

theorem At.add_length {data rest : List α} {offset : ℤ} (h : At data rest offset) :
    offset + rest.length = data.length := by
  obtain ⟨front, rfl, rfl⟩ := h
  rw [List.length_append, Nat.cast_add]

theorem At.drop_eq {data rest : List α} {offset : ℤ} (h : At data rest offset) : data.drop offset.toNat = rest := by
  obtain ⟨front, rfl, rfl⟩ := h
  simp

theorem At.at_end {data rest : List α} {offset : ℤ} (h : At data rest offset) : (data.length : ℤ) ≤ offset ↔ rest = [] := by
  rw [← h.add_length, ← List.length_eq_zero_iff]
  omega

theorem At.next {data rest : List α} {a : α} {offset : ℤ} (h : At data (a :: rest) offset) :
    At data rest (offset + 1) := by
  obtain ⟨front, rfl, rfl⟩ := h
  exact ⟨front ++ [a], by simp, by simp⟩

theorem At.advance {data rest : List α} {offset : ℤ} {n : ℕ} (h : At data rest offset) (hn : n ≤ rest.length) :
    At data (rest.drop n) (offset + n) := by
  obtain ⟨front, rfl, rfl⟩ := h
  refine ⟨front ++ rest.take n, by simp, ?_⟩
  rw [List.length_append, List.length_take, min_eq_left hn, Nat.cast_add]

def AtOrPast (data rest : List α) (offset : ℤ) : Prop := At data rest offset ∨ rest = [] ∧ (data.length : ℤ) ≤ offset

theorem AtOrPast.at_end {data rest : List α} {offset : ℤ} (h : AtOrPast data rest offset) :
    (data.length : ℤ) ≤ offset ↔ rest = [] := by
  obtain h | ⟨hrest, hend⟩ := h
  · exact h.at_end
  · exact iff_of_true hend hrest

theorem AtOrPast.at_cons {data rest : List α} {a : α} {offset : ℤ} (h : AtOrPast data (a :: rest) offset) :
    At data (a :: rest) offset := h.resolve_right fun h => absurd h.1 (List.cons_ne_nil _ _)

theorem At.advance_any {data rest : List α} {offset : ℤ} (h : At data rest offset) (n : ℕ) :
    AtOrPast data (rest.drop n) (offset + n) := by
  by_cases hn : n ≤ rest.length
  · exact .inl (h.advance hn)
  · have := h.add_length
    exact .inr ⟨List.drop_of_length_le (by omega), by omega⟩

/-- `data[offset++]`; outside the array the value is undefined. -/
def readNext (data : List α) (offset : ℤ) : Walk ε (Option α × ℤ) :=
  ⟨.done (if 0 ≤ offset then data[offset.toNat]? else none, offset + 1),
    [.read data.length offset, .move offset (offset + 1)]⟩

/-- `offset += amount`. -/
def advance (offset amount : ℤ) : Walk ε ℤ := ⟨.done (offset + amount), [.move offset (offset + amount)]⟩

@[simp] theorem outcome_advance (offset amount : ℤ) :
    (advance offset amount : Walk ε ℤ).outcome = .done (offset + amount) := rfl

@[simp] theorem sound_advance (offset amount : ℤ) : (advance offset amount : Walk ε ℤ).Sound ↔ 0 ≤ amount := by
  simp [advance, Walk.Sound, Event.Sound]

theorem returns_readNext (data : List α) (offset : ℤ) : (readNext data offset : Walk ε (Option α × ℤ)).Returns :=
  ⟨_, rfl⟩

theorem returns_advance (offset amount : ℤ) : (advance offset amount : Walk ε ℤ).Returns := ⟨_, rfl⟩

theorem readNext_sound {data : List α} {offset : ℤ} (hnonneg : 0 ≤ offset) (hlt : offset < data.length) :
    (readNext data offset : Walk ε (Option α × ℤ)).Sound := by
  simp only [Walk.Sound, readNext, List.forall_mem_cons, Event.Sound]
  exact ⟨⟨hnonneg, hlt⟩, by omega, fun _ h => absurd h List.not_mem_nil⟩

theorem At.outcome_readNext {data rest : List α} {a : α} {offset : ℤ} (h : At data (a :: rest) offset) :
    (readNext data offset : Walk ε (Option α × ℤ)).outcome = .done (some a, offset + 1) := by
  have hdrop := h.drop_eq
  have hget : data[offset.toNat]? = some a := by
    rw [← List.head?_drop, hdrop, List.head?_cons]
  rw [readNext, if_pos h.nonneg, hget]

theorem At.sound_readNext {data rest : List α} {a : α} {offset : ℤ} (h : At data (a :: rest) offset) :
    (readNext data offset : Walk ε (Option α × ℤ)).Sound := by
  have hlength := h.add_length
  rw [List.length_cons] at hlength
  exact readNext_sound h.nonneg (by omega)

/-- A slice counts negative bounds from the end and never leaves the array. -/
def slice (data : List α) (start stop : ℤ) : List α :=
  let clamp : ℤ → ℕ := fun bound =>
    if bound < 0 then (data.length + bound).toNat else min bound.toNat data.length
  (data.take (clamp stop)).drop (clamp start)

theorem At.slice_eq {data rest : List α} {offset : ℤ} {n : ℕ} (h : At data rest offset) :
    slice data offset (offset + n) = rest.take n := by
  obtain ⟨front, rfl, rfl⟩ := h
  have hstart : ¬ ((front.length : ℤ) < 0) := by omega
  have hstop : ¬ (((front.length + n : ℕ) : ℤ) < 0) := by omega
  simp only [slice, ← Nat.cast_add, if_neg hstart, if_neg hstop, Int.toNat_natCast, List.length_append]
  rw [min_eq_left (by omega)]
  by_cases hn : n ≤ rest.length
  · rw [min_eq_left (by omega), List.take_length_add_append, List.drop_left]
  · rw [min_eq_right (by omega), ← List.length_append, List.take_length, List.drop_left,
      List.take_of_length_le (by omega)]

end Arrays

end CrashLab.CursorWalks
