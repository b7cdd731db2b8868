import CrashLab.RunControl

namespace CrashLab.Run

open WorkerRing Loops

/-- The cancel signal and the work of a run. A poll and a call may each move the world they share. -/
structure LiveHarness (σ : Type) where
  isCancelled : σ → Bool × σ
  work : ℕ → σ → Except String Unit × σ

structure Finished (σ : Type) where
  terminal : RunTerminalState
  worked : List (ℕ × Except String Unit)
  world : σ

structure Tally (σ : Type) where
  seedsProcessed : ℕ
  worked : List (ℕ × Except String Unit)
  world : σ

namespace Tally

variable {σ : Type}

def start (world : σ) : Tally σ := ⟨0, [], world⟩

def leave (t : Tally σ) (terminal : RunTerminalState) : Finished σ := ⟨terminal, t.worked, t.world⟩

def logWork (t : Tally σ) (seedIndex : ℕ) (r : Except String Unit × σ) : Tally σ :=
  { t with worked := t.worked ++ [(seedIndex, r.1)], world := r.2 }

def completed (t : Tally σ) : RunTerminalState := .completed ⟨t.seedsProcessed, none⟩

def cancelled (t : Tally σ) (seedIndex : ℕ) : RunTerminalState :=
  .cancelled ⟨t.seedsProcessed, some seedIndex⟩

end Tally

section Drivers

variable {σ : Type} (live : LiveHarness σ)

def runSeed (partition : Option WorkerPartition) (seedIndex : ℕ) (t : Tally σ) :
    Flow (Finished σ) (Tally σ) :=
  let (cancelled, world) := live.isCancelled t.world
  let t := { t with world }
  if cancelled then .stop (t.leave (t.cancelled seedIndex))
  else if partition.any fun p => !p.ownsSeed seedIndex then .next t
  else
    let r := live.work seedIndex t.world
    let t := t.logWork seedIndex r
    match r.1 with
    | .error message => .stop (t.leave (.failed message))
    | .ok () => .next { t with seedsProcessed := t.seedsProcessed + 1 }

def driveRun (totalSeeds : ℕ) (partition : Option WorkerPartition) (world : σ) : Finished σ :=
  (forRange (runSeed live partition) 0 totalSeeds (.start world)).orElse fun t => t.leave t.completed

def partitionedSeed (partition : WorkerPartition) (seedIndex : ℕ) (t : Tally σ) :
    Flow (Finished σ) (Tally σ) :=
  let (cancelled, world) := live.isCancelled t.world
  let t := { t with world }
  if cancelled then .stop (t.leave (t.cancelled seedIndex))
  else if !partition.ownsSeed seedIndex then .next t
  else
    let r := live.work seedIndex t.world
    let t := t.logWork seedIndex r
    match r.1 with
    | .error message => .stop (t.leave (.failed message))
    | .ok () => .next { t with seedsProcessed := t.seedsProcessed + 1 }

def driveRunPartitioned (totalSeeds : ℕ) (partition : WorkerPartition) (world : σ) : Finished σ :=
  (forRange (partitionedSeed live partition) 0 totalSeeds (.start world)).orElse fun t =>
    t.leave t.completed

inductive ProgressEvent where
  | seedProcessed (seedIndex seedsProcessed : ℕ)
  | failure (seedIndex : ℕ) (message : String)
  | finish (seedsProcessed : ℕ) (terminal : RunTerminalState)
deriving DecidableEq, Repr

abbrev Observed (α : Type) := α × List ProgressEvent

def Tally.finish (t : Tally σ) (events : List ProgressEvent) (terminal : RunTerminalState) :
    Observed (Finished σ) :=
  (t.leave terminal, events ++ [.finish t.seedsProcessed terminal])

def healthSeed (partition : Option WorkerPartition) (seedIndex : ℕ) (s : Observed (Tally σ)) :
    Flow (Observed (Finished σ)) (Observed (Tally σ)) :=
  let (t, events) := s
  let (cancelled, world) := live.isCancelled t.world
  let t := { t with world }
  if cancelled then .stop (t.finish events (t.cancelled seedIndex))
  else if partition.any fun p => !p.ownsSeed seedIndex then .next (t, events)
  else
    let r := live.work seedIndex t.world
    let t := t.logWork seedIndex r
    match r.1 with
    | .error message => .stop (t.finish (events ++ [.failure seedIndex message]) (.failed message))
    | .ok () =>
      let t := { t with seedsProcessed := t.seedsProcessed + 1 }
      .next (t, events ++ [.seedProcessed seedIndex t.seedsProcessed])

def driveRunWithHealth (totalSeeds : ℕ) (partition : Option WorkerPartition) (world : σ) :
    Observed (Finished σ) :=
  (forRange (healthSeed live partition) 0 totalSeeds (.start world, [])).orElse fun s =>
    s.1.finish s.2 s.1.completed

end Drivers

def RunTerminalState.summary? : RunTerminalState → Option RunSummary
  | completed summary => some summary
  | cancelled summary => some summary
  | plateauStop summary => some summary
  | failed _ => none

def processed (seeds : List ℕ) : List ProgressEvent :=
  seeds.mapIdx fun k seedIndex => .seedProcessed seedIndex (k + 1)

theorem processed_concat (seeds : List ℕ) (seedIndex : ℕ) :
    processed (seeds ++ [seedIndex]) = processed seeds ++ [.seedProcessed seedIndex (seeds.length + 1)] := by
  simp [processed, List.mapIdx_append]

namespace Finished

variable {σ : Type}

def succeeded (run : Finished σ) : List ℕ :=
  (run.worked.filter fun call => call.2.isOk).map Prod.fst

def failures (run : Finished σ) : List ProgressEvent :=
  run.worked.filterMap fun call =>
    match call.2 with
    | .error message => some (.failure call.1 message)
    | .ok () => none

def Counts (run : Finished σ) : Prop :=
  ∀ summary, run.terminal.summary? = some summary → summary.seedsProcessed = run.succeeded.length

def progress (run : Finished σ) : List ProgressEvent :=
  processed run.succeeded ++ run.failures ++ [.finish run.succeeded.length run.terminal]

end Finished

section Agreement

variable {σ : Type} {live : LiveHarness σ}

def Tally.Went (t : Tally σ) (seeds : List ℕ) : Prop :=
  t.seedsProcessed = seeds.length ∧ t.worked = seeds.map fun seedIndex => (seedIndex, .ok ())

theorem Tally.Went.succeeded {t : Tally σ} {seeds : List ℕ} (h : t.Went seeds)
    (terminal : RunTerminalState) : (t.leave terminal).succeeded = seeds := by
  simp [Finished.succeeded, leave, h.2, List.filter_map, Function.comp_def, Except.isOk, Except.toBool]

theorem Tally.Went.failures {t : Tally σ} {seeds : List ℕ} (h : t.Went seeds)
    (terminal : RunTerminalState) : (t.leave terminal).failures = [] := by
  simp [Finished.failures, leave, h.2, List.filterMap_map]

theorem partitionedSeed_eq (p : WorkerPartition) : partitionedSeed live p = runSeed live (some p) := by
  funext seedIndex t
  simp [partitionedSeed, runSeed]

def SameRun (run : Finished σ) (observed : Observed (Finished σ)) : Prop :=
  observed = (run, run.progress) ∧ run.Counts

def SameTally (t : Tally σ) (s : Observed (Tally σ)) : Prop :=
  s.1 = t ∧ ∃ seeds, t.Went seeds ∧ s.2 = processed seeds

theorem Tally.Went.finish {t : Tally σ} {seeds : List ℕ} (h : t.Went seeds)
    {terminal : RunTerminalState}
    (hcount : ∀ summary, terminal.summary? = some summary → summary.seedsProcessed = t.seedsProcessed) :
    SameRun (t.leave terminal) (t.finish (processed seeds) terminal) := by
  refine ⟨?_, ?_⟩
  · simp only [Tally.finish, Finished.progress, h.succeeded, h.failures, h.1, List.append_nil]
    rfl
  · intro summary hsum
    rw [h.succeeded, ← h.1]
    exact hcount summary hsum

theorem Tally.Went.fail {t : Tally σ} {seeds : List ℕ} (h : t.Went seeds) (seedIndex : ℕ)
    (message : String) (world : σ) :
    SameRun ((t.logWork seedIndex (.error message, world)).leave (.failed message))
      ((t.logWork seedIndex (.error message, world)).finish
        (processed seeds ++ [.failure seedIndex message]) (.failed message)) := by
  have hsucceeded : ((t.logWork seedIndex (.error message, world)).leave (.failed message)).succeeded =
      seeds := by
    rw [← h.succeeded (.failed message)]
    simp [Finished.succeeded, Tally.leave, Tally.logWork, Except.isOk, Except.toBool]
  have hfailures : ((t.logWork seedIndex (.error message, world)).leave (.failed message)).failures =
      [.failure seedIndex message] := by
    have hnone := h.failures (.failed message)
    simp only [Finished.failures, Tally.leave] at hnone
    simp [Finished.failures, Tally.leave, Tally.logWork, hnone]
  refine ⟨?_, ?_⟩
  · simp only [Tally.finish, Finished.progress, hsucceeded, hfailures, ← h.1]
    rfl
  · intro summary hsum
    cases hsum

theorem healthSeed_rel (partition : Option WorkerPartition) (seedIndex : ℕ) {t : Tally σ}
    {s : Observed (Tally σ)} (h : SameTally t s) :
    (runSeed live partition seedIndex t).Rel SameRun SameTally (healthSeed live partition seedIndex s) := by
  obtain ⟨t', events⟩ := s
  obtain ⟨rfl, seeds, hwent, rfl⟩ := h
  have hcount : t'.seedsProcessed = seeds.length := hwent.1
  have hworked : t'.worked = seeds.map fun seedIndex => (seedIndex, .ok ()) := hwent.2
  have hmoved : ∀ world, ({ t' with world } : Tally σ).Went seeds := fun _ => hwent
  simp only [runSeed, healthSeed]
  by_cases hc : (live.isCancelled t'.world).1 = true
  · simp only [hc, if_true]
    apply Flow.Rel.stop
    apply (hmoved _).finish
    rintro summary ⟨⟩
    rfl
  simp only [hc]
  by_cases howned : (partition.any fun p => !p.ownsSeed seedIndex) = true
  · simp only [howned, if_true]
    exact .next ⟨rfl, seeds, hmoved _, rfl⟩
  simp only [howned]
  generalize live.work seedIndex (live.isCancelled t'.world).2 = call
  obtain ⟨r, world⟩ := call
  cases r with
  | error message => exact .stop ((hmoved _).fail seedIndex message world)
  | ok u =>
    apply Flow.Rel.next
    refine ⟨rfl, seeds ++ [seedIndex], ⟨?_, ?_⟩, ?_⟩
    · simp [Tally.logWork, hcount]
    · simp [Tally.logWork, hworked]
    · simp [Tally.logWork, hcount, processed_concat]

theorem driveRunWithHealth_same (total : ℕ) (partition : Option WorkerPartition) (world : σ) :
    SameRun (driveRun live total partition world) (driveRunWithHealth live total partition world) := by
  have hstart : SameTally (.start world) ((.start world, []) : Observed (Tally σ)) :=
    ⟨rfl, [], ⟨rfl, rfl⟩, rfl⟩
  have hloop : (forRange (runSeed live partition) 0 total (.start world)).Rel SameRun SameTally
      (forRange (healthSeed live partition) 0 total (.start world, [])) :=
    forRange_rel (fun _ => SameTally) SameRun total hstart
      fun i t s _ _ h => healthSeed_rel partition i h
  apply hloop.orElse
  rintro t ⟨t', events⟩ ⟨rfl, seeds, hwent, rfl⟩
  apply hwent.finish
  rintro summary ⟨⟩
  rfl

end Agreement

theorem in_memory_drivers_agree {σ : Type} (live : LiveHarness σ) (total : ℕ) (p : WorkerPartition)
    (world : σ) :
    let run := driveRun live total (some p) world
    let health := driveRunWithHealth live total (some p) world
    driveRunPartitioned live total p world = run ∧ health.1 = run ∧
    health.2 = (run.succeeded.mapIdx fun k seedIndex => .seedProcessed seedIndex (k + 1)) ++
      run.failures ++ [.finish run.succeeded.length run.terminal] ∧
    ∀ summary, run.terminal.summary? = some summary → summary.seedsProcessed = run.succeeded.length := by
  intro run health
  obtain ⟨hsame, hcounts⟩ : SameRun run health := driveRunWithHealth_same total (some p) world
  refine ⟨?_, ?_, ?_, hcounts⟩
  · rw [driveRunPartitioned, partitionedSeed_eq]
    rfl
  · rw [hsame]
  · rw [hsame]
    rfl

end CrashLab.Run
