import CrashLab.NextRunSearch
import CrashLab.TickCoverage

namespace CrashLab.Cron

open JsStrings LeastWalks Sorting
open CampaignQuotas (isWindowOpen)

def TickInput.again (input : TickInput) : TickInput :=
  { input with schedules := (evaluateTick input).schedules, history := (evaluateTick input).history }

structure Idempotent (input : TickInput) : Prop where
  created : (evaluateTick input.again).created = []
  schedules : (evaluateTick input.again).schedules = (evaluateTick input).schedules
  history : (evaluateTick input.again).history = (evaluateTick input).history

section DueTicks

variable {input : TickInput} {source : JsString} {expr : CronExpression} {anchor lastTick : ℕ}

theorem slots_eq_empty (parsed : parseCron source = .ok expr) (hnow : input.now ≤ maxTime)
    (hover : ¬ Overruns expr anchor) (hnext : ∀ t, nextRun expr anchor = some t → floorToMinute input.now < t) :
    slots expr anchor (floorToMinute input.now) = ∅ := by
  rw [Finset.eq_empty_iff_forall_notMem]
  intro u hu
  obtain ⟨hlt, hle, hmatch⟩ := mem_slots.mp hu
  have hmax : u ≤ maxTime := hle.trans ((floorToMinute_le _).trans hnow)
  have hfinds := (nextRun_findsNext_iff parsed anchor).mpr hover
  cases h : nextRun expr anchor with
  | none => exact hfinds.throws.mp h ⟨u, hlt, hmax, hmatch⟩
  | some t =>
    have hleast : t ≤ u := (hfinds.least t h).2 ⟨hlt, hmax, hmatch⟩
    have := hnext t h
    omega

theorem card_slots_of_overruns (hover : Overruns expr anchor) (hnow : input.now ≤ maxTime) :
    (slots expr anchor (floorToMinute input.now)).card ≤ 1 := by
  rw [Finset.card_le_one_iff_subset_singleton]
  refine ⟨maxTime, ?_⟩
  intro u hu
  obtain ⟨hlt, hle, hmatch⟩ := mem_slots.mp hu
  have hmax : u ≤ maxTime := hle.trans ((floorToMinute_le _).trans hnow)
  rw [Finset.mem_singleton]
  by_contra hne
  have hday : dayOf u = dayOf (maxTime - dayMs) := by
    have := hover.start
    unfold dayOf dayMs maxTime at *
    omega
  have hmatches := hmatch.day
  rw [dayMatches_congr hday, hover.day] at hmatches
  cases hmatches

theorem not_overruns_of_matches (h : Matches expr lastTick) : ¬ Overruns expr lastTick := by
  intro hover
  have hday : dayOf lastTick = dayOf (maxTime - dayMs) := by
    have := hover.start
    have := hover.stop
    unfold dayOf dayMs minuteMs maxTime at *
    omega
  have hmatches := h.day
  rw [dayMatches_congr hday, hover.day] at hmatches
  cases hmatches

theorem card_slots_of_dueTicks_nil (parsed : parseCron source = .ok expr) (hnow : input.now ≤ maxTime)
    (hcap : 1 ≤ input.maxTicks) (hnil : input.dueTicks expr anchor = []) :
    (slots expr anchor (floorToMinute input.now)).card ≤ input.maxTicks := by
  by_cases hover : Overruns expr anchor
  · exact (card_slots_of_overruns hover hnow).trans hcap
  · rw [slots_eq_empty parsed hnow hover (fun t ht => next_of_walk_eq_nil hcap hnil ht), Finset.card_empty]
    exact Nat.zero_le _

theorem dueTicks_last_eq_nil_iff (parsed : parseCron source = .ok expr) (hnow : input.now ≤ maxTime)
    (hcap : 1 ≤ input.maxTicks) (hlast : (input.dueTicks expr anchor).getLast? = some lastTick) :
    input.dueTicks expr lastTick = [] ↔ (slots expr anchor (floorToMinute input.now)).card ≤ input.maxTicks := by
  have find := nextRun_findsLeast expr
  obtain ⟨hlt, hle, hmatch⟩ := getLast_walk find hlast
  have hcount : (input.dueTicks expr anchor).length = (slots expr anchor lastTick).card := length_walk find hlast
  have hlength : (input.dueTicks expr anchor).length ≤ input.maxTicks := length_walk_le
  rw [card_slots hlt.le hle, ← hcount]
  constructor
  · intro hnil
    rw [slots_eq_empty parsed hnow (not_overruns_of_matches hmatch) (fun t ht => next_of_walk_eq_nil hcap hnil ht),
      Finset.card_empty]
    exact hlength
  · intro hcard
    rcases walk_cases (nextRun expr) (floorToMinute input.now) input.maxTicks lastTick with hnil | ⟨n, t, -, ht, htle, -⟩
    · exact hnil
    · have hslot : 0 < (slots expr lastTick (floorToMinute input.now)).card :=
        Finset.card_pos.mpr ⟨t, mem_slots.mpr ⟨find.lt ht, htle, find.holds ht⟩⟩
      have hstopped := walk_stopped hlast (show _ < input.maxTicks by unfold TickInput.dueTicks at *; omega) ht
      omega

end DueTicks

section Repeats

variable {input : TickInput} {x : Schedule} {expr : CronExpression} {anchor lastTick : ℕ}

def Settled (input : TickInput) (x : Schedule) : Prop :=
  (evaluateSchedule input.again ((evaluateSchedule input x).schedule x)).run = none ∧
    (evaluateSchedule input.again ((evaluateSchedule input x).schedule x)).schedule
      ((evaluateSchedule input x).schedule x) = (evaluateSchedule input x).schedule x

theorem idempotent_iff_settled (input : TickInput) : Idempotent input ↔ ∀ x ∈ input.schedules, Settled input x := by
  have hschedules : (evaluateTick input).schedules =
      input.schedules.map fun x => (evaluateSchedule input x).schedule x := rfl
  have hagain : (evaluateTick input.again).schedules = (evaluateTick input).schedules.map fun x =>
      (evaluateSchedule input.again x).schedule x := rfl
  have hcreated : (evaluateTick input.again).created.Perm
      ((evaluateTick input).schedules.filterMap fun x => (evaluateSchedule input.again x).run) := sortByKey_perm _ _
  have hhistory : (evaluateTick input.again).history =
      (evaluateTick input).history ++ (evaluateTick input.again).created := rfl
  have hnone : (evaluateTick input.again).created = [] ↔
      ∀ x ∈ (evaluateTick input).schedules, (evaluateSchedule input.again x).run = none := by
    rw [← List.filterMap_eq_nil_iff]
    constructor
    · intro h
      rw [h] at hcreated
      exact hcreated.nil_eq.symm
    · intro h
      rw [h] at hcreated
      exact hcreated.eq_nil
  have hsame : (evaluateTick input.again).schedules = (evaluateTick input).schedules ↔
      ∀ x ∈ (evaluateTick input).schedules, (evaluateSchedule input.again x).schedule x = x := by
    rw [hagain]
    conv_lhs => rhs; rw [← List.map_id (evaluateTick input).schedules]
    exact List.map_inj_left
  constructor
  · intro h x hx
    have hmem : (evaluateSchedule input x).schedule x ∈ (evaluateTick input).schedules :=
      hschedules ▸ List.mem_map_of_mem hx
    exact ⟨hnone.mp h.created _ hmem, hsame.mp h.schedules _ hmem⟩
  · intro h
    have hall : ∀ y ∈ (evaluateTick input).schedules, (evaluateSchedule input.again y).run = none ∧
        (evaluateSchedule input.again y).schedule y = y := by
      intro y hy
      rw [hschedules, List.mem_map] at hy
      obtain ⟨x, hx, rfl⟩ := hy
      exact h x hx
    have hempty := hnone.mpr fun y hy => (hall y hy).1
    exact ⟨hempty, hsame.mpr fun y hy => (hall y hy).2, by rw [hhistory, hempty, List.append_nil]⟩

def Stays (input : TickInput) (x : Schedule) : Prop :=
  evaluateSchedule input x = .unchanged ∨ ∃ held, evaluateSchedule input x = .deferred held

theorem settled_of_stays (h : Stays input x) (h' : Stays input.again x) : Settled input x := by
  have hfirst : (evaluateSchedule input x).schedule x = x := by
    rcases h with h | ⟨held, h⟩ <;> rw [h] <;> rfl
  unfold Settled
  rw [hfirst]
  rcases h' with h | ⟨held, h⟩ <;> rw [h] <;> exact ⟨rfl, rfl⟩

theorem stays_of_dueTicks_nil (hlive : x.Live expr anchor) (hnil : input.dueTicks expr anchor = []) :
    Stays input x := by
  left
  rw [evaluateSchedule_live hlive, hnil]
  rfl

theorem stays_of_closed (hlive : x.Live expr anchor)
    (hclosed : isWindowOpen input.openWindows x.firingClass input.now = false) : Stays input x := by
  unfold Stays
  rw [evaluateSchedule_live hlive]
  cases (input.dueTicks expr anchor).getLast? with
  | none => exact Or.inl rfl
  | some tick => exact Or.inr ⟨_, if_pos hclosed⟩

theorem schedule_of_open (hlive : x.Live expr anchor)
    (hopen : isWindowOpen input.openWindows x.firingClass input.now = true)
    (hlast : (input.dueTicks expr anchor).getLast? = some lastTick) :
    (evaluateSchedule input x).schedule x = { x with lastRunAt := some lastTick } := by
  rw [evaluateSchedule_live hlive, hlast]
  dsimp only
  rw [hopen, if_neg (by decide)]
  split_ifs <;> rfl

theorem settled_iff_of_fired (hlive : x.Live expr anchor)
    (hopen : isWindowOpen input.openWindows x.firingClass input.now = true)
    (hlast : (input.dueTicks expr anchor).getLast? = some lastTick) :
    Settled input x ↔ input.dueTicks expr lastTick = [] := by
  have hlive' : Schedule.Live { x with lastRunAt := some lastTick } expr lastTick := ⟨hlive.enabled, hlive.parsed, rfl⟩
  have hdue : input.again.dueTicks expr lastTick = input.dueTicks expr lastTick := rfl
  unfold Settled
  rw [schedule_of_open hlive hopen hlast]
  constructor
  · rintro ⟨-, hsame⟩
    by_contra hne
    obtain ⟨tick, htick⟩ := Option.ne_none_iff_exists'.mp (fun h => hne (List.getLast?_eq_none_iff.mp h))
    have hlt : lastTick < tick := (getLast_walk (nextRun_findsLeast expr) htick).1
    have hmove := @schedule_of_open input.again _ _ _ _ hlive' hopen htick
    rw [hmove] at hsame
    have hmoved : some tick = some lastTick := congrArg Schedule.lastRunAt hsame
    rw [Option.some_inj] at hmoved
    omega
  · intro hnil
    rw [evaluateSchedule_live hlive', hdue, hnil]
    exact ⟨rfl, rfl⟩

end Repeats

theorem evaluateTick_idempotent_iff (input : TickInput) (hnow : input.now ≤ maxTime) (hcap : 1 ≤ input.maxTicks) :
    Idempotent input ↔ ∀ x ∈ input.schedules, ∀ expr anchor, x.Live expr anchor →
      isWindowOpen input.openWindows x.firingClass input.now = true →
        (slots expr anchor (floorToMinute input.now)).card ≤ input.maxTicks := by
  rw [idempotent_iff_settled]
  refine forall₂_congr fun x _ => ?_
  by_cases hlive : ∃ expr anchor, x.Live expr anchor
  · obtain ⟨expr, anchor, hlive⟩ := hlive
    have hunique : (∀ expr' anchor', x.Live expr' anchor' →
        isWindowOpen input.openWindows x.firingClass input.now = true →
          (slots expr' anchor' (floorToMinute input.now)).card ≤ input.maxTicks) ↔
        (isWindowOpen input.openWindows x.firingClass input.now = true →
          (slots expr anchor (floorToMinute input.now)).card ≤ input.maxTicks) := by
      constructor
      · exact fun h => h expr anchor hlive
      · intro h expr' anchor' hlive'
        obtain ⟨rfl, rfl⟩ := hlive.unique hlive'
        exact h
    rw [hunique]
    cases hopen : isWindowOpen input.openWindows x.firingClass input.now with
    | false =>
      have hclosed : isWindowOpen input.again.openWindows x.firingClass input.again.now = false := hopen
      simp only [settled_of_stays (stays_of_closed hlive hopen) (stays_of_closed hlive hclosed), Bool.false_eq_true,
        false_implies]
    | true =>
      rw [eq_self_iff_true, true_imp_iff]
      cases hlast : (input.dueTicks expr anchor).getLast? with
      | none =>
        have hnil := List.getLast?_eq_none_iff.mp hlast
        have hnil' : input.again.dueTicks expr anchor = [] := hnil
        have hsettled := settled_of_stays (stays_of_dueTicks_nil hlive hnil) (stays_of_dueTicks_nil hlive hnil')
        exact iff_of_true hsettled (card_slots_of_dueTicks_nil hlive.parsed hnow hcap hnil)
      | some lastTick =>
        exact (settled_iff_of_fired hlive hopen hlast).trans (dueTicks_last_eq_nil_iff hlive.parsed hnow hcap hlast)
  · have hstays : ∀ input : TickInput, Stays input x := fun input => Or.inl ((live_or_unchanged input x).resolve_left hlive)
    refine iff_of_true (settled_of_stays (hstays input) (hstays input.again)) ?_
    intro expr anchor h
    exact absurd ⟨expr, anchor, h⟩ hlive

def cutShort : TickInput := ⟨[hourly], [], 1772335800000, some 1, none⟩

theorem cutShort_not_idempotent : ¬ Idempotent cutShort := by
  intro h
  exact absurd h.created (by decide +kernel)

theorem cutShort_idempotent_iff : Idempotent cutShort ↔ ∀ x ∈ [hourly], ∀ expr anchor, x.Live expr anchor →
    isWindowOpen cutShort.openWindows x.firingClass cutShort.now = true →
      (slots expr anchor (floorToMinute cutShort.now)).card ≤ 1 :=
  evaluateTick_idempotent_iff cutShort (by decide) (by decide)

end CrashLab.Cron
