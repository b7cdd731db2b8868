import Mathlib.Tactic

namespace CrashLab.Cursor

section BigEndian

def beBytes : ℕ → ℕ → List UInt8
  | 0, _ => []
  | width + 1, n => UInt8.ofNat (n / 256 ^ width) :: beBytes width n

def beValue (bytes : List UInt8) : ℕ := bytes.foldl (fun acc b => acc * 256 + b.toNat) 0

@[simp] theorem length_beBytes (width n : ℕ) : (beBytes width n).length = width := by
  induction width with
  | zero => rfl
  | succ width ih => rw [beBytes, List.length_cons, ih]

theorem foldl_beValue (acc : ℕ) (bytes : List UInt8) :
    bytes.foldl (fun acc b => acc * 256 + b.toNat) acc = acc * 256 ^ bytes.length + beValue bytes := by
  induction bytes generalizing acc with
  | nil => simp [beValue]
  | cons b bytes ih =>
    rw [beValue, List.foldl_cons, List.foldl_cons, ih, ih (0 * 256 + b.toNat), List.length_cons, pow_succ]
    ring

theorem beValue_cons (b : UInt8) (bytes : List UInt8) :
    beValue (b :: bytes) = b.toNat * 256 ^ bytes.length + beValue bytes := by
  rw [beValue, List.foldl_cons, foldl_beValue]
  ring

theorem beValue_beBytes (width n : ℕ) : beValue (beBytes width n) = n % 256 ^ width := by
  induction width with
  | zero => simp [beBytes, beValue, Nat.mod_one]
  | succ width ih =>
    have hbyte : (UInt8.ofNat (n / 256 ^ width)).toNat = n / 256 ^ width % 256 := UInt8.toNat_ofNat'
    rw [beBytes, beValue_cons, ih, length_beBytes, hbyte, pow_succ, Nat.mod_mul]
    ring

end BigEndian

inductive Fault (ε : Type) where
  | reject (reason : ε)
  | outOfRange
deriving DecidableEq, Repr

/-- Reading moves a position that nothing but the checks of the code keeps inside the bytes. -/
abbrev Reader (ε α : Type) := StateT ℕ (Except (Fault ε)) α

variable {ε α β : Type}

def slice (bytes : List UInt8) (lo hi : ℕ) : Reader ε (List UInt8) :=
  if lo ≤ hi ∧ hi ≤ bytes.length then pure ((bytes.drop lo).take (hi - lo)) else throw .outOfRange

def repeatRead (read : Reader ε α) : ℕ → Reader ε (List α)
  | 0 => pure []
  | count + 1 => do
    let item ← read
    let items ← repeatRead read count
    return item :: items

section Reads

/-- Wherever `chunk` stands in the bytes, `read` takes it whole and returns `a`. -/
def Reads (bytes : List UInt8) (read : Reader ε α) (a : α) (chunk : List UInt8) : Prop :=
  ∀ before after, bytes = before ++ chunk ++ after →
    read before.length = .ok (a, before.length + chunk.length)

variable {bytes : List UInt8}

theorem Reads.pure (a : α) : Reads bytes (pure a : Reader ε α) a [] := by
  intro before after _
  rfl

theorem Reads.bind {read : Reader ε α} {next : α → Reader ε β} {a : α} {b : β} {chunk chunk' : List UInt8}
    (h : Reads bytes read a chunk) (h' : Reads bytes (next a) b chunk') :
    Reads bytes (read >>= next) b (chunk ++ chunk') := by
  intro before after hbytes
  have hfirst : bytes = before ++ chunk ++ (chunk' ++ after) := by
    rw [hbytes]
    simp only [List.append_assoc]
  have hsecond : bytes = before ++ chunk ++ chunk' ++ after := by
    rw [hbytes]
    simp only [List.append_assoc]
  have hnext := h' (before ++ chunk) after hsecond
  rw [List.length_append] at hnext
  change (read before.length >>= fun p => next p.1 p.2) = _
  rw [h before _ hfirst]
  change next a (before.length + chunk.length) = _
  rw [hnext, List.length_append, Nat.add_assoc]

theorem Reads.andReturn {read : Reader ε α} {f : α → β} {a : α} {chunk : List UInt8}
    (h : Reads bytes read a chunk) : Reads bytes (do return f (← read)) (f a) chunk := by
  rw [← List.append_nil chunk]
  exact h.bind (Reads.pure (f a))

theorem Reads.modify (skip : ℕ) {chunk : List UInt8} (h : chunk.length = skip) :
    Reads bytes (modify (· + skip) : Reader ε PUnit) PUnit.unit chunk := by
  intro before after _
  rw [h]
  rfl

theorem Reads.repeatRead {read : Reader ε α} {encode : α → List UInt8} {items : List α}
    (h : ∀ item ∈ items, Reads bytes read item (encode item)) :
    Reads bytes (repeatRead read items.length) items (items.flatMap encode) := by
  induction items with
  | nil => exact Reads.pure []
  | cons item items ih =>
    rw [List.forall_mem_cons] at h
    rw [List.flatMap_cons]
    exact h.1.bind (ih h.2).andReturn

end Reads

section Safe

/-- From a position in `pre`, `read` never leaves the bytes, and what it returns meets `post`. -/
def Safe (pre : ℕ → Prop) (read : Reader ε α) (post : α → ℕ → Prop) : Prop :=
  ∀ pos, pre pos → match read pos with
    | .ok (a, pos') => post a pos'
    | .error (.reject _) => True
    | .error .outOfRange => False

variable {pre mid : ℕ → Prop} {post : α → ℕ → Prop} {post' : β → ℕ → Prop}

theorem Safe.pure {a : α} (h : ∀ pos, pre pos → post a pos) : Safe pre (pure a : Reader ε α) post := h

theorem Safe.reject (reason : ε) : Safe pre (throw (.reject reason) : Reader ε α) post := fun _ _ => trivial

theorem Safe.of_pre {read : Reader ε α} (h : Safe mid read post) (hpre : ∀ pos, pre pos → mid pos) :
    Safe pre read post := fun pos hpos => h pos (hpre pos hpos)

theorem Safe.bind {read : Reader ε α} {next : α → Reader ε β} (h : Safe pre read post)
    (h' : ∀ a, Safe (post a) (next a) post') : Safe pre (read >>= next) post' := by
  intro pos hpos
  have hread := h pos hpos
  change match (read pos >>= fun p => next p.1 p.2) with
    | .ok (b, pos') => post' b pos'
    | .error (.reject _) => True
    | .error .outOfRange => False
  cases hresult : read pos with
  | error fault =>
    rw [hresult] at hread
    cases fault with
    | reject reason => trivial
    | outOfRange => exact hread
  | ok p =>
    rw [hresult] at hread
    exact h' p.1 p.2 hread

theorem Safe.andReturn {read : Reader ε α} (f : α → β) (h : Safe pre read fun _ => mid) :
    Safe pre (do return f (← read)) fun _ => mid :=
  h.bind fun _ => Safe.pure fun _ hpos => hpos

theorem Safe.ite {p : Prop} [Decidable p] {read read' : Reader ε α} (h : Safe pre read post)
    (h' : Safe pre read' post) : Safe pre (if p then read else read') post := by
  split_ifs
  · exact h
  · exact h'

theorem Safe.repeatRead {read : Reader ε α} (h : Safe mid read fun _ => mid) (count : ℕ) :
    Safe mid (repeatRead read count) fun _ => mid := by
  induction count with
  | zero => exact Safe.pure fun _ hpos => hpos
  | succ count ih => exact h.bind fun item => ih.andReturn (item :: ·)

end Safe

section Inversion

theorem bind_ok {read : Reader ε α} {next : α → Reader ε β} {pos pos' : ℕ} {b : β}
    (h : (read >>= next) pos = .ok (b, pos')) :
    ∃ a mid, read pos = .ok (a, mid) ∧ next a mid = .ok (b, pos') := by
  change (read pos >>= fun p => next p.1 p.2) = _ at h
  cases hread : read pos with
  | error fault =>
    rw [hread] at h
    exact nomatch h
  | ok p =>
    rw [hread] at h
    exact ⟨p.1, p.2, rfl, h⟩

theorem andReturn_ok {read : Reader ε α} {f : α → β} {pos pos' : ℕ} {b : β}
    (h : (do return f (← read) : Reader ε β) pos = .ok (b, pos')) :
    ∃ a, read pos = .ok (a, pos') ∧ b = f a := by
  obtain ⟨a, mid, hread, hreturn⟩ := bind_ok h
  obtain ⟨rfl, rfl⟩ := Prod.mk.inj (Except.ok.inj hreturn)
  exact ⟨a, hread, rfl⟩

theorem bind_of_ok {read : Reader ε α} {next : α → Reader ε β} {pos mid : ℕ} {a : α}
    (h : read pos = .ok (a, mid)) : (read >>= next) pos = next a mid := by
  change (read pos >>= fun p => next p.1 p.2) = _
  rw [h]
  rfl

end Inversion

section Extends

/-- What `read` returns, `read'` returns as well: the same code over longer bytes. -/
def Extends (read read' : Reader ε α) : Prop := ∀ pos a pos', read pos = .ok (a, pos') → read' pos = .ok (a, pos')

theorem Extends.refl (read : Reader ε α) : Extends read read := fun _ _ _ h => h

theorem Extends.bind {read read' : Reader ε α} {next next' : α → Reader ε β} (h : Extends read read')
    (hnext : ∀ a, Extends (next a) (next' a)) : Extends (read >>= next) (read' >>= next') := by
  intro pos b pos' hread
  obtain ⟨a, mid, hfirst, hrest⟩ := bind_ok hread
  rw [bind_of_ok (h _ _ _ hfirst)]
  exact hnext a _ _ _ hrest

theorem Extends.andReturn {read read' : Reader ε α} (f : α → β) (h : Extends read read') :
    Extends (do return f (← read)) (do return f (← read')) :=
  h.bind fun _ => Extends.refl _

end Extends

section Returns

/-- What `read` returns from a position in `pre` meets `post`. -/
def Returns (pre : ℕ → Prop) (read : Reader ε α) (post : α → ℕ → Prop) : Prop :=
  ∀ pos a pos', pre pos → read pos = .ok (a, pos') → post a pos'

theorem Returns.ite {p : Prop} [Decidable p] {pre : ℕ → Prop} {post : α → ℕ → Prop} {read read' : Reader ε α}
    (h : Returns pre read post) (h' : Returns pre read' post) : Returns pre (if p then read else read') post := by
  split_ifs
  · exact h
  · exact h'

theorem Returns.andReturn {pre : ℕ → Prop} {post : β → ℕ → Prop} {read : Reader ε α} {f : α → β}
    (h : Returns pre read fun a => post (f a)) : Returns pre (do return f (← read)) post := by
  intro pos b pos' hpos hread
  obtain ⟨a, ha, rfl⟩ := andReturn_ok hread
  exact h pos a pos' hpos ha

end Returns

section Succeeds

def Succeeds (read : Reader ε α) (pos : ℕ) : Prop := ∃ p, read pos = .ok p

variable {read : Reader ε α} {pos mid : ℕ}

theorem succeeds_bind_of_ok {next : α → Reader ε β} {a : α} (h : read pos = .ok (a, mid)) :
    Succeeds (read >>= next) pos ↔ Succeeds (next a) mid := by
  rw [Succeeds, bind_of_ok h, Succeeds]

theorem succeeds_andReturn {f : α → β} : Succeeds (do return f (← read)) pos ↔ Succeeds read pos := by
  constructor
  · rintro ⟨p, h⟩
    obtain ⟨a, ha, -⟩ := andReturn_ok h
    exact ⟨_, ha⟩
  · rintro ⟨p, h⟩
    exact ⟨(f p.1, p.2), bind_of_ok h⟩

theorem succeeds_repeatRead_succ {count : ℕ} {items : List α} (h : repeatRead read count pos = .ok (items, mid)) :
    Succeeds (repeatRead read (count + 1)) pos ↔ Succeeds read mid := by
  induction count generalizing pos items with
  | zero =>
    obtain ⟨-, rfl⟩ := Prod.mk.inj (Except.ok.inj h)
    exact succeeds_andReturn
  | succ count ih =>
    obtain ⟨item, next, hitem, hrest⟩ := bind_ok h
    obtain ⟨others, hothers, -⟩ := andReturn_ok hrest
    rw [← ih hothers, repeatRead, succeeds_bind_of_ok hitem]
    exact succeeds_andReturn

end Succeeds

section Shifts

/-- `read'` does `n` positions further on what `read` does: the same code with something put before the bytes. -/
def Shifts (n : ℕ) (read read' : Reader ε α) : Prop :=
  ∀ pos, read' (n + pos) = (read pos).map fun p => (p.1, n + p.2)

variable {n : ℕ} {read read' : Reader ε α} {next next' : α → Reader ε β}

theorem Shifts.pure (a : α) : Shifts n (pure a : Reader ε α) (pure a) := fun _ => rfl

theorem Shifts.reject (fault : Fault ε) : Shifts n (throw fault : Reader ε α) (throw fault) := fun _ => rfl

theorem Shifts.bind (h : Shifts n read read') (hnext : ∀ a, Shifts n (next a) (next' a)) :
    Shifts n (read >>= next) (read' >>= next') := by
  intro pos
  change (read' (n + pos) >>= fun p => next' p.1 p.2) = (read pos >>= fun p => next p.1 p.2).map _
  rw [h pos]
  cases read pos with
  | error fault => rfl
  | ok p => exact hnext p.1 p.2

theorem Shifts.andReturn (f : α → β) (h : Shifts n read read') :
    Shifts n (do return f (← read)) (do return f (← read')) :=
  h.bind fun _ => Shifts.pure _

theorem Shifts.ite {p : Prop} [Decidable p] {other other' : Reader ε α} (h : Shifts n read read')
    (h' : Shifts n other other') : Shifts n (if p then read else other) (if p then read' else other') := by
  split_ifs
  · exact h
  · exact h'

theorem Shifts.repeatRead (h : Shifts n read read') (count : ℕ) :
    Shifts n (repeatRead read count) (repeatRead read' count) := by
  induction count with
  | zero => exact Shifts.pure []
  | succ count ih => exact h.bind fun item => ih.andReturn (item :: ·)

theorem Shifts.succeeds_iff (h : Shifts n read read') (pos : ℕ) : Succeeds read' (n + pos) ↔ Succeeds read pos := by
  rw [Succeeds, Succeeds, h pos]
  cases read pos with
  | error fault => simp [Except.map]
  | ok p => simp [Except.map]

end Shifts

end CrashLab.Cursor
