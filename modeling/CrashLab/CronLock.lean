import CrashLab.Histories

namespace CrashLab.CronLock

open Histories

def lockTtlSeconds : ℕ := 60

def lockKeyPrefix : String := "cron:tick:lock:"

def createLockKey (lockId : String) : String := lockKeyPrefix ++ lockId

theorem createLockKey_injective : Function.Injective createLockKey := by
  intro lockId lockId' h
  apply String.toList_inj.mp
  have hlists := congrArg String.toList h
  rw [createLockKey, createLockKey, String.toList_append, String.toList_append] at hlists
  exact List.append_cancel_left hlists

variable {ι : Type} [DecidableEq ι]

section DriverLock

/-- How a call to the driver ends; one that is rejected may have been applied all the same. -/
inductive Call where
  | done
  | rejected (applied : Bool)
deriving DecidableEq, Repr

def Call.applied : Call → Bool
  | done => true
  | rejected applied => applied

/-- Where a caller stands between the calls to the driver that its `acquire` makes. -/
inductive Phase where
  | idle
  | looked (lockId : String) (existing : Bool)
  | writing (lockId : String)
deriving DecidableEq, Repr

/-- `runs` are the ids that the driver has a run under; `holds` are the locks that a caller has acquired and not
released since. -/
structure DriverLock (ι : Type) where
  runs : String → Bool := fun _ => false
  phases : ι → Phase := fun _ => .idle
  holds : ι → String → Bool := fun _ _ => false

/-- The continuation of a caller up to its next call to the driver, and how that call ends. -/
inductive DriverEvent (ι : Type) where
  | acquire (caller : ι) (lockId : String) (getRun : Call)
  | proceed (caller : ι) (putRun : Call)
  | returned (caller : ι)
  | release (caller : ι) (lockId : String) (deleteRun : Call)
deriving DecidableEq, Repr

namespace DriverLock

def setPhase (lock : DriverLock ι) (i : ι) (phase : Phase) : DriverLock ι :=
  { lock with phases := Function.update lock.phases i phase }

def setHold (lock : DriverLock ι) (i : ι) (lockId : String) (held : Bool) : DriverLock ι :=
  { lock with holds := Function.update lock.holds i (Function.update (lock.holds i) lockId held) }

def setRun (lock : DriverLock ι) (id : String) (stored : Bool) : DriverLock ι :=
  { lock with runs := Function.update lock.runs id stored }

def applyCall (lock : DriverLock ι) (call : Call) (id : String) (stored : Bool) : DriverLock ι :=
  if call.applied then lock.setRun id stored else lock

/-- `createCronLock`; a driver without `putRun` stores nothing. A release deletes the run of the lock, whoever
holds it. -/
def step (hasPutRun : Bool) (lock : DriverLock ι) : DriverEvent ι → DriverLock ι
  | .acquire i lockId getRun =>
    match lock.phases i, getRun with
    | .idle, .done => lock.setPhase i (.looked lockId (lock.runs (createLockKey lockId)))
    | _, _ => lock
  | .proceed i putRun =>
    match lock.phases i with
    | .looked _ true => lock.setPhase i .idle
    | .looked lockId false =>
      if hasPutRun then
        match putRun with
        | .done => (lock.applyCall putRun (createLockKey lockId) true).setPhase i (.writing lockId)
        | .rejected _ => (lock.applyCall putRun (createLockKey lockId) true).setPhase i .idle
      else (lock.setPhase i .idle).setHold i lockId true
    | _ => lock
  | .returned i =>
    match lock.phases i with
    | .writing lockId => (lock.setPhase i .idle).setHold i lockId true
    | _ => lock
  | .release i lockId deleteRun => (lock.applyCall deleteRun (createLockKey lockId) false).setHold i lockId false

def Exclusive (lock : DriverLock ι) : Prop :=
  ∀ lockId i j, lock.holds i lockId = true → lock.holds j lockId = true → i = j

/-- Whoever found no run finds none either when its own run is stored, and nobody deletes the run of a lock that
another caller holds or has just stored. -/
def Unraced (lock : DriverLock ι) : DriverEvent ι → Prop
  | .proceed i putRun =>
    ∀ lockId, lock.phases i = .looked lockId false → putRun = .done → lock.runs (createLockKey lockId) = false
  | .release i lockId deleteRun =>
    deleteRun.applied = true → ∀ j, lock.phases j ≠ .writing lockId ∧ (lock.holds j lockId = true → j = i)
  | _ => True

def Takes (lock : DriverLock ι) (i : ι) (lockId : String) : Prop :=
  lock.phases i = .writing lockId ∨ lock.holds i lockId = true

structure Invariant (lock : DriverLock ι) : Prop where
  stored : ∀ i lockId, lock.Takes i lockId → lock.runs (createLockKey lockId) = true
  unique : ∀ lockId i j, lock.Takes i lockId → lock.Takes j lockId → i = j

variable {lock next : DriverLock ι}

omit [DecidableEq ι] in
theorem Invariant.exclusive (h : Invariant lock) : Exclusive lock :=
  fun lockId i j hi hj => h.unique lockId i j (.inr hi) (.inr hj)

omit [DecidableEq ι] in
theorem Invariant.of_takes (h : Invariant lock) (htakes : ∀ i lockId, next.Takes i lockId → lock.Takes i lockId)
    (hruns : ∀ i lockId, next.Takes i lockId → lock.runs (createLockKey lockId) = true →
      next.runs (createLockKey lockId) = true) : Invariant next where
  stored i lockId hi := hruns i lockId hi (h.stored i lockId (htakes i lockId hi))
  unique lockId i j hi hj := h.unique lockId i j (htakes i lockId hi) (htakes j lockId hj)

theorem takes_setPhase {i j : ι} {phase : Phase} {lockId : String} (hphase : ∀ lockId, phase ≠ .writing lockId)
    (hj : (lock.setPhase i phase).Takes j lockId) : lock.Takes j lockId := by
  rcases hj with hwriting | hholds
  · simp only [setPhase, Function.update_apply] at hwriting
    split_ifs at hwriting
    · exact absurd hwriting (hphase lockId)
    · exact .inl hwriting
  · exact .inr hholds

theorem Invariant.setPhase (h : Invariant lock) (i : ι) {phase : Phase} (hphase : ∀ lockId, phase ≠ .writing lockId) :
    Invariant (lock.setPhase i phase) :=
  h.of_takes (fun _ _ hj => takes_setPhase hphase hj) fun _ _ _ hruns => hruns

omit [DecidableEq ι] in
theorem Invariant.store (h : Invariant lock) (id : String) : Invariant (lock.setRun id true) := by
  apply h.of_takes
  · exact fun _ _ hi => hi
  · intro i lockId _ hruns
    simp only [setRun, Function.update_apply]
    split_ifs
    · rfl
    · exact hruns

theorem Invariant.proceed (h : Invariant lock) (i : ι) {lockId : String}
    (hfree : lock.runs (createLockKey lockId) = false) :
    Invariant ((lock.setRun (createLockKey lockId) true).setPhase i (.writing lockId)) := by
  have hnobody : ∀ j, ¬lock.Takes j lockId := by
    intro j hj
    rw [h.stored j lockId hj] at hfree
    cases hfree
  have hthere : ∀ j lockId', ((lock.setRun (createLockKey lockId) true).setPhase i (.writing lockId)).Takes j lockId' →
      (j = i ∧ lockId' = lockId) ∨ lock.Takes j lockId' := by
    rintro j lockId' (hwriting | hholds)
    · simp only [DriverLock.setPhase, Function.update_apply] at hwriting
      split_ifs at hwriting with hji
      · exact .inl ⟨hji, (Phase.writing.inj hwriting).symm⟩
      · exact .inr (.inl hwriting)
    · exact .inr (.inr hholds)
  constructor
  · intro j lockId' hj
    simp only [DriverLock.setPhase, setRun, Function.update_apply]
    split_ifs with hkey
    · rfl
    · rcases hthere j lockId' hj with ⟨_, rfl⟩ | htakes
      · exact absurd rfl hkey
      · exact h.stored j lockId' htakes
  · intro lockId' j k hj hk
    rcases hthere j lockId' hj with ⟨rfl, rfl⟩ | htakes
    · rcases hthere k lockId' hk with ⟨rfl, _⟩ | htakes
      · rfl
      · exact absurd htakes (hnobody k)
    · rcases hthere k lockId' hk with ⟨_, rfl⟩ | htakes'
      · exact absurd htakes (hnobody j)
      · exact h.unique lockId' j k htakes htakes'

theorem Invariant.returned (h : Invariant lock) {i : ι} {lockId : String} (hwriting : lock.phases i = .writing lockId) :
    Invariant ((lock.setPhase i .idle).setHold i lockId true) := by
  apply h.of_takes
  · rintro j lockId' (hphase | hholds)
    · exact takes_setPhase (by simp) (.inl hphase)
    · simp only [setHold, DriverLock.setPhase, Function.update_apply] at hholds
      split_ifs at hholds with hji
      · rw [Function.update_apply] at hholds
        split_ifs at hholds with hid
        · rw [hji, hid]
          exact .inl hwriting
        · rw [hji]
          exact .inr hholds
      · exact .inr hholds
  · exact fun _ _ _ hruns => hruns

theorem takes_setHold {i j : ι} {lockId lockId' : String} (hj : (lock.setHold i lockId false).Takes j lockId') :
    lock.Takes j lockId' ∧ (lock.phases j = .writing lockId' ∨ ¬(j = i ∧ lockId' = lockId)) := by
  rcases hj with hwriting | hholds
  · exact ⟨.inl hwriting, .inl hwriting⟩
  · simp only [setHold, Function.update_apply] at hholds
    split_ifs at hholds with hji
    · rw [Function.update_apply] at hholds
      split_ifs at hholds with hid
      rw [hji]
      exact ⟨.inr hholds, .inr fun hboth => hid hboth.2⟩
    · exact ⟨.inr hholds, .inr fun hboth => hji hboth.1⟩

theorem Invariant.release (h : Invariant lock) {i : ι} {lockId : String}
    (hothers : ∀ j, lock.phases j ≠ .writing lockId ∧ (lock.holds j lockId = true → j = i)) :
    Invariant ((lock.setRun (createLockKey lockId) false).setHold i lockId false) := by
  apply h.of_takes
  · exact fun j lockId' hj => (takes_setHold hj).1
  · intro j lockId' hj hruns
    simp only [setHold, setRun, Function.update_apply]
    split_ifs with hkey
    · obtain rfl := createLockKey_injective hkey
      obtain ⟨htakes, hleft⟩ := takes_setHold hj
      have hnot := (hothers j).1
      rcases htakes with hwriting | hholds
      · exact absurd hwriting hnot
      · exact absurd ⟨(hothers j).2 hholds, rfl⟩ (hleft.resolve_left hnot)
    · exact hruns

theorem Invariant.step (lock : DriverLock ι) (event : DriverEvent ι) (h : Invariant lock)
    (hevent : Unraced lock event) : Invariant (lock.step true event) := by
  cases event with
  | acquire i lockId getRun =>
    unfold DriverLock.step
    dsimp only
    split
    · exact h.setPhase i (by simp)
    · exact h
  | proceed i putRun =>
    unfold DriverLock.step
    dsimp only
    cases hphase : lock.phases i with
    | idle => exact h
    | writing _ => exact h
    | looked lockId existing =>
      cases existing with
      | true => exact h.setPhase i (by simp)
      | false =>
        cases putRun with
        | done => exact h.proceed i (hevent lockId hphase rfl)
        | rejected applied =>
          cases applied with
          | false => exact h.setPhase i (by simp)
          | true => exact (h.store _).setPhase i (by simp)
  | returned i =>
    unfold DriverLock.step
    dsimp only
    cases hphase : lock.phases i with
    | writing lockId => exact h.returned hphase
    | _ => exact h
  | release i lockId deleteRun =>
    unfold DriverLock.step applyCall
    unfold Unraced at hevent
    dsimp only at hevent ⊢
    split_ifs with happlied
    · exact h.release (hevent happlied)
    · exact h.of_takes (fun j lockId' hj => (takes_setHold hj).1) fun _ _ _ hruns => hruns

end DriverLock

end DriverLock

section MemoryLock

structure LockEntry where
  acquiredAt : ℕ
  ttl : ℕ
deriving DecidableEq, Repr

/-- `holds` are the locks that a caller has acquired and not released since, each with the time of the acquire,
until the hold runs out. -/
structure MemoryLock (ι : Type) where
  locks : String → Option LockEntry := fun _ => none
  holds : ι → String → Option ℕ := fun _ _ => none

inductive MemoryAction (ι : Type) where
  | acquire (caller : ι) (lockId : String)
  | release (caller : ι) (lockId : String)
  | isLocked (lockId : String)
deriving DecidableEq, Repr

structure MemoryEvent (ι : Type) where
  now : ℕ
  action : MemoryAction ι
deriving DecidableEq, Repr

def LockEntry.live (entry : LockEntry) (now : ℕ) : Bool := decide (now < entry.acquiredAt + entry.ttl * 1000)

namespace MemoryLock

def expire (lock : MemoryLock ι) (now : ℕ) : MemoryLock ι :=
  { lock with holds := fun i lockId => (lock.holds i lockId).filter fun since => now < since + lockTtlSeconds * 1000 }

def setHold (lock : MemoryLock ι) (i : ι) (lockId : String) (since : Option ℕ) : MemoryLock ι :=
  { lock with holds := Function.update lock.holds i (Function.update (lock.holds i) lockId since) }

def setLock (lock : MemoryLock ι) (lockId : String) (entry : Option LockEntry) : MemoryLock ι :=
  { lock with locks := Function.update lock.locks lockId entry }

def acquire (lock : MemoryLock ι) (now : ℕ) (i : ι) (lockId : String) : MemoryLock ι :=
  if (lock.locks lockId).any (·.live now) then lock
  else (lock.setLock lockId (some ⟨now, lockTtlSeconds⟩)).setHold i lockId (some now)

def release (lock : MemoryLock ι) (i : ι) (lockId : String) : MemoryLock ι :=
  (lock.setLock lockId none).setHold i lockId none

def isLocked (lock : MemoryLock ι) (now : ℕ) (lockId : String) : MemoryLock ι :=
  if (lock.locks lockId).any fun entry => decide (entry.acquiredAt + entry.ttl * 1000 < now) then
    lock.setLock lockId none
  else lock

/-- `createInMemoryCronLock`. -/
def step (lock : MemoryLock ι) (event : MemoryEvent ι) : MemoryLock ι :=
  match event.action with
  | .acquire i lockId => (lock.expire event.now).acquire event.now i lockId
  | .release i lockId => (lock.expire event.now).release i lockId
  | .isLocked lockId => (lock.expire event.now).isLocked event.now lockId

/-- At most one caller holds a lock, and nobody has freed the lock that a caller holds. -/
structure Safe (lock : MemoryLock ι) : Prop where
  exclusive : ∀ lockId i j since since', lock.holds i lockId = some since → lock.holds j lockId = some since' → i = j
  held : ∀ i lockId since, lock.holds i lockId = some since → lock.locks lockId = some ⟨since, lockTtlSeconds⟩

def Timely (lock : MemoryLock ι) (event : MemoryEvent ι) : Prop :=
  match event.action with
  | .release i lockId => ∀ j, j ≠ i → (lock.expire event.now).holds j lockId = none
  | _ => True

variable {lock : MemoryLock ι}

omit [DecidableEq ι] in
theorem holds_expire {now : ℕ} {i : ι} {lockId : String} {since : ℕ} :
    (lock.expire now).holds i lockId = some since ↔
      lock.holds i lockId = some since ∧ now < since + lockTtlSeconds * 1000 := by
  simp [expire, Option.filter_eq_some_iff]

omit [DecidableEq ι] in
theorem Safe.expire (h : Safe lock) (now : ℕ) : Safe (lock.expire now) where
  exclusive lockId i j since since' hi hj :=
    h.exclusive lockId i j since since' (holds_expire.mp hi).1 (holds_expire.mp hj).1
  held i lockId since hi := h.held i lockId since (holds_expire.mp hi).1

theorem holds_setHold {i j : ι} {lockId lockId' : String} {since : Option ℕ} :
    (lock.setHold i lockId since).holds j lockId' =
      if j = i ∧ lockId' = lockId then since else lock.holds j lockId' := by
  simp only [setHold, Function.update_apply]
  by_cases hji : j = i
  · rw [if_pos hji, Function.update_apply, hji]
    simp
  · simp [hji]

omit [DecidableEq ι] in
theorem Safe.live (h : Safe lock) {now : ℕ} {i : ι} {lockId : String} {since : ℕ}
    (hholds : (lock.expire now).holds i lockId = some since) :
    ((lock.expire now).locks lockId).any (·.live now) = true := by
  obtain ⟨hheld, hlive⟩ := holds_expire.mp hholds
  have hentry : (lock.expire now).locks lockId = some ⟨since, lockTtlSeconds⟩ := h.held i lockId since hheld
  rw [hentry, Option.any_some]
  exact decide_eq_true hlive

theorem Safe.acquire (h : Safe lock) (now : ℕ) (i : ι) (lockId : String) :
    Safe ((lock.expire now).acquire now i lockId) := by
  unfold MemoryLock.acquire
  split_ifs with hany
  · exact h.expire now
  · have hnobody : ∀ j since, (lock.expire now).holds j lockId ≠ some since :=
      fun j since hj => hany (h.live hj)
    have hthere : ∀ j lockId' since,
        (((lock.expire now).setLock lockId (some ⟨now, lockTtlSeconds⟩)).setHold i lockId (some now)).holds j lockId' =
          some since → (j = i ∧ lockId' = lockId ∧ since = now) ∨
            lockId' ≠ lockId ∧ (lock.expire now).holds j lockId' = some since := by
      intro j lockId' since hj
      rw [holds_setHold] at hj
      split_ifs at hj with hself
      · exact .inl ⟨hself.1, hself.2, (Option.some_inj.mp hj).symm⟩
      · refine .inr ⟨?_, hj⟩
        rintro rfl
        exact hnobody j since hj
    constructor
    · intro lockId' j k since since' hj hk
      rcases hthere j lockId' since hj with ⟨rfl, rfl, _⟩ | ⟨hne, hj⟩
      · rcases hthere k lockId' since' hk with ⟨rfl, _, _⟩ | ⟨hne, _⟩
        · rfl
        · exact absurd rfl hne
      · rcases hthere k lockId' since' hk with ⟨_, heq, _⟩ | ⟨_, hk⟩
        · exact absurd heq hne
        · exact (h.expire now).exclusive lockId' j k since since' hj hk
    · intro j lockId' since hj
      simp only [MemoryLock.setHold, setLock, Function.update_apply]
      rcases hthere j lockId' since hj with ⟨_, rfl, rfl⟩ | ⟨hne, hj⟩
      · exact if_pos rfl
      · rw [if_neg hne]
        exact (h.expire now).held j lockId' since hj

theorem Safe.release (h : Safe lock) {i : ι} {lockId : String} (hothers : ∀ j, j ≠ i → lock.holds j lockId = none) :
    Safe (lock.release i lockId) := by
  have hthere : ∀ j lockId' since, (lock.release i lockId).holds j lockId' = some since →
      lockId' ≠ lockId ∧ lock.holds j lockId' = some since := by
    intro j lockId' since hj
    rw [MemoryLock.release, holds_setHold] at hj
    split_ifs at hj with hself
    refine ⟨?_, hj⟩
    rintro rfl
    have hji : j ≠ i := fun hji => hself ⟨hji, rfl⟩
    have hnone : lock.holds j lockId' = none := hothers j hji
    exact absurd (hnone.symm.trans hj) (by simp)
  constructor
  · intro lockId' j k since since' hj hk
    exact h.exclusive lockId' j k since since' (hthere j lockId' since hj).2 (hthere k lockId' since' hk).2
  · intro j lockId' since hj
    obtain ⟨hne, hheld⟩ := hthere j lockId' since hj
    simp only [MemoryLock.release, setHold, setLock, Function.update_apply]
    rw [if_neg hne]
    exact h.held j lockId' since hheld

omit [DecidableEq ι] in
theorem Safe.isLocked (h : Safe lock) (now : ℕ) (lockId : String) :
    Safe ((lock.expire now).isLocked now lockId) := by
  unfold MemoryLock.isLocked
  split_ifs with hany
  · refine ⟨(h.expire now).exclusive, fun j lockId' since hj => ?_⟩
    have hentry := (h.expire now).held j lockId' since hj
    simp only [setLock, Function.update_apply]
    split_ifs with heq
    · have hlive := (holds_expire.mp hj).2
      rw [← heq, hentry, Option.any_some, decide_eq_true_eq] at hany
      exact absurd hlive (not_lt.mpr hany.le)
    · exact hentry
  · exact h.expire now

theorem Safe.step (lock : MemoryLock ι) (event : MemoryEvent ι) (h : Safe lock) (hevent : Timely lock event) :
    Safe (lock.step event) := by
  unfold MemoryLock.step
  unfold Timely at hevent
  cases haction : event.action with
  | acquire i lockId => exact h.acquire event.now i lockId
  | isLocked lockId => exact h.isLocked event.now lockId
  | release i lockId =>
    rw [haction] at hevent
    exact (h.expire event.now).release hevent

theorem timely_of_safe (lock : MemoryLock ι) (event : MemoryEvent ι) (h : Safe (lock.step event)) :
    Timely lock event := by
  unfold Timely
  cases haction : event.action with
  | acquire _ _ => trivial
  | isLocked _ => trivial
  | release i lockId =>
    intro j hji
    rw [Option.eq_none_iff_forall_ne_some]
    intro since hj
    have hstep : lock.step event = (lock.expire event.now).release i lockId := by
      rw [MemoryLock.step, haction]
    rw [hstep] at h
    have hholds : ((lock.expire event.now).release i lockId).holds j lockId = some since := by
      rw [MemoryLock.release, holds_setHold, if_neg fun hself => hji hself.1]
      exact hj
    have hheld := h.held j lockId since hholds
    simp [MemoryLock.release, setHold, setLock] at hheld

end MemoryLock

end MemoryLock

theorem cron_lock_exclusive (events : List (DriverEvent ι)) (memoryEvents : List (MemoryEvent ι))
    (hevents : EachStep (DriverLock.step true) DriverLock.Unraced {} events) :
    Always (DriverLock.step true) DriverLock.Exclusive {} events ∧
      (Always MemoryLock.step MemoryLock.Safe {} memoryEvents ↔
        EachStep MemoryLock.step MemoryLock.Timely {} memoryEvents) := by
  have hstart : DriverLock.Invariant ({} : DriverLock ι) := by
    constructor
    · rintro i lockId (h | h) <;> cases h
    · rintro lockId i j (h | h) <;> cases h
  have hfresh : MemoryLock.Safe ({} : MemoryLock ι) := ⟨by simp, by simp⟩
  constructor
  · rw [always_iff_eachStep hstart.exclusive]
    apply hevents.imp DriverLock.Invariant.step _ hstart
    exact fun lock event h hevent => (h.step lock event hevent).exclusive
  · rw [always_iff_eachStep hfresh]
    symm
    apply eachStep_iff MemoryLock.Safe.step _ hfresh
    intro lock event h
    exact ⟨h.step lock event, MemoryLock.timely_of_safe lock event⟩

section Samples

instance DriverLock.Unraced.decidable (lock : DriverLock (Fin 2)) : ∀ event, Decidable (lock.Unraced event)
  | .acquire _ _ _ => isTrue trivial
  | .returned _ => isTrue trivial
  | .release i lockId deleteRun => inferInstanceAs (Decidable (deleteRun.applied = true →
      ∀ j, lock.phases j ≠ .writing lockId ∧ (lock.holds j lockId = true → j = i)))
  | .proceed i putRun =>
    match h : lock.phases i with
    | .looked lockId false =>
      decidable_of_iff (putRun = .done → lock.runs (createLockKey lockId) = false) (by simp [Unraced, h])
    | .looked _ true => isTrue (by simp [Unraced, h])
    | .idle => isTrue (by simp [Unraced, h])
    | .writing _ => isTrue (by simp [Unraced, h])

def orderlyEvents : List (DriverEvent (Fin 2)) :=
  [.acquire 0 "a" .done, .proceed 0 .done, .returned 0, .acquire 1 "a" .done, .proceed 1 .done, .release 1 "b" .done,
    .release 0 "a" .done, .acquire 1 "a" .done, .proceed 1 .done, .returned 1]

def lateRelease : List (MemoryEvent (Fin 2)) :=
  [⟨0, .acquire 0 "a"⟩, ⟨60000, .acquire 1 "a"⟩, ⟨60001, .release 0 "a"⟩]

theorem orderly_events_exclusive :
    Always (DriverLock.step true) DriverLock.Exclusive {} orderlyEvents ∧
      (Always MemoryLock.step MemoryLock.Safe {} lateRelease ↔
        EachStep MemoryLock.step MemoryLock.Timely {} lateRelease) :=
  cron_lock_exclusive orderlyEvents lateRelease (by decide +kernel)

def racingEvents : List (DriverEvent (Fin 2)) :=
  [.acquire 0 "a" .done, .acquire 1 "a" .done, .proceed 0 .done, .proceed 1 .done, .returned 0, .returned 1]

theorem cron_lock_fails :
    (∀ hasPutRun, ¬∀ events : List (DriverEvent (Fin 2)),
        Always (DriverLock.step hasPutRun) DriverLock.Exclusive {} events) ∧
      ¬∀ events : List (MemoryEvent (Fin 2)), Always MemoryLock.step MemoryLock.Safe {} events := by
  -- two callers hold the lock over a driver, with `putRun` and without, and a late release frees the lock in memory
  constructor
  · intro hasPutRun h
    have hboth := (h racingEvents).run "a" 0 1
    revert hboth
    cases hasPutRun <;> decide +kernel
  · intro h
    have hheld := (h lateRelease).run.held 1 "a" 60000 (by decide +kernel)
    revert hheld
    decide +kernel

end Samples

end CrashLab.CronLock
