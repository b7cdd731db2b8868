import Mathlib.Tactic

namespace CrashLab.Oracles

variable {α β γ : Type*}

structure Oracle (α : Type*) where
  max : ℕ
  used : ℕ
  exhausted : Bool
  calls : List α

namespace Oracle

def accepts (check : α → Bool) (o : Oracle α) (candidate : α) : Option Bool × Oracle α :=
  if o.used ≥ o.max then (none, { o with exhausted := true })
  else (some (check candidate), { o with used := o.used + 1, calls := o.calls ++ [candidate] })

def room (o : Oracle α) : ℕ := o.max - o.used

def answer (o : Oracle α) (log : List α) : Oracle α :=
  { o with used := o.used + log.length, calls := o.calls ++ log }

def cut (o : Oracle α) : Oracle α := { o with exhausted := true }

@[simp] theorem answer_nil (o : Oracle α) : o.answer [] = o := by simp [answer]

@[simp] theorem answer_answer (o : Oracle α) (log log' : List α) :
    (o.answer log).answer log' = o.answer (log ++ log') := by
  simp [answer, Nat.add_assoc]

@[simp] theorem room_answer (o : Oracle α) (log : List α) :
    (o.answer log).room = o.room - log.length := by
  simp only [answer, room]
  omega

theorem accepts_of_pos (check : α → Bool) {o : Oracle α} (h : 0 < o.room) (candidate : α) :
    o.accepts check candidate = (some (check candidate), o.answer [candidate]) := by
  rw [room] at h
  rw [accepts, if_neg (by omega)]
  rfl

theorem accepts_of_zero (check : α → Bool) {o : Oracle α} (h : o.room = 0) (candidate : α) :
    o.accepts check candidate = (none, o.cut) := by
  rw [room] at h
  rw [accepts, if_pos (by omega)]
  rfl

end Oracle

/-- The run asks `log` and returns `b`. With less room than that it asks what it can pay for and
stops with a result in `Cut`. -/
structure Asks (Cut : β → Prop) (run : Oracle α → β × Oracle α) (log : List α) (b : β) : Prop where
  paid : ∀ o, log.length ≤ o.room → run o = (b, o.answer log)
  cut : ∀ o, o.room < log.length → ∃ c, Cut c ∧ run o = (c, (o.answer (log.take o.room)).cut)

theorem Asks.pure {Cut : β → Prop} {run : Oracle α → β × Oracle α} {b : β}
    (h : ∀ o, run o = (b, o)) : Asks Cut run [] b where
  paid o _ := by rw [h, Oracle.answer_nil]
  cut o hroom := absurd hroom (Nat.not_lt_zero _)

theorem Asks.mono {Cut CutB : β → Prop} {run : Oracle α → β × Oracle α} {log : List α} {b : β}
    (h : Asks Cut run log b) (himp : ∀ c, Cut c → CutB c) : Asks CutB run log b where
  paid := h.paid
  cut o hroom := by
    obtain ⟨c, hc, hrun⟩ := h.cut o hroom
    exact ⟨c, himp c hc, hrun⟩

theorem Asks.ask {Cut : β → Prop} {run next : Oracle α → β × Oracle α} {check : α → Bool}
    {candidate : α} {log : List α} {b c : β} (hc : Cut c)
    (hcut : ∀ o, (o.accepts check candidate).1 = none → run o = (c, (o.accepts check candidate).2))
    (hnext : ∀ o, (o.accepts check candidate).1 = some (check candidate) →
      run o = next (o.accepts check candidate).2)
    (h : Asks Cut next log b) : Asks Cut run (candidate :: log) b where
  paid o hroom := by
    rw [List.length_cons] at hroom
    have hask := Oracle.accepts_of_pos check (show 0 < o.room by omega) candidate
    rw [hnext o (by rw [hask]), hask, h.paid _ (by simp; omega), Oracle.answer_answer]
    rfl
  cut o hroom := by
    rw [List.length_cons] at hroom
    rcases Nat.eq_zero_or_pos o.room with hzero | hpos
    · have hask := Oracle.accepts_of_zero check hzero candidate
      refine ⟨c, hc, ?_⟩
      rw [hcut o (by rw [hask]), hask, hzero, List.take_zero, Oracle.answer_nil]
    · have hask := Oracle.accepts_of_pos check hpos candidate
      obtain ⟨d, hd, hrun⟩ := h.cut (o.answer [candidate]) (by simp; omega)
      refine ⟨d, hd, ?_⟩
      obtain ⟨k, hk⟩ : ∃ k, o.room = k + 1 := ⟨o.room - 1, by omega⟩
      rw [hnext o (by rw [hask]), hask, hrun, Oracle.room_answer, Oracle.answer_answer, hk,
        List.take_succ_cons]
      rfl

theorem Asks.andThen {CutA : γ → Prop} {CutB : β → Prop} {first : Oracle α → γ × Oracle α}
    {run next : Oracle α → β × Oracle α} {logA logB : List α} {a : γ} {b : β}
    (hA : Asks CutA first logA a) (hB : Asks CutB next logB b)
    (hnext : ∀ o, (first o).1 = a → run o = next (first o).2)
    (hcut : ∀ o, CutA (first o).1 → ∃ c, CutB c ∧ run o = (c, (first o).2)) :
    Asks CutB run (logA ++ logB) b where
  paid o hroom := by
    rw [List.length_append] at hroom
    have hfirst := hA.paid o (by omega)
    rw [hnext o (by rw [hfirst]), hfirst, hB.paid _ (by simp; omega), Oracle.answer_answer]
  cut o hroom := by
    rw [List.length_append] at hroom
    by_cases hlt : o.room < logA.length
    · obtain ⟨x, hx, hfirst⟩ := hA.cut o hlt
      obtain ⟨c, hc, hrun⟩ := hcut o (by rw [hfirst]; exact hx)
      refine ⟨c, hc, ?_⟩
      rw [hrun, hfirst, List.take_append_of_le_length hlt.le]
    · have hfirst := hA.paid o (by omega)
      obtain ⟨c, hc, hrun⟩ := hB.cut (o.answer logA) (by simp; omega)
      have htake : (logA ++ logB).take o.room = logA ++ logB.take (o.room - logA.length) := by
        rw [List.take_append, List.take_of_length_le (l := logA) (by omega)]
      refine ⟨c, hc, ?_⟩
      rw [hnext o (by rw [hfirst]), hfirst, hrun, Oracle.room_answer, Oracle.answer_answer, htake]

end CrashLab.Oracles
