import CrashLab.SharedFetches

namespace CrashLab.RequestDedup

open Histories JsonTexts

section Soundness

variable {U S : Type} {s : State U S} {n : ℕ} {change : Request U S → Request U S}
variable {request : Request U S} {url : U}

theorem modify_requests (m : ℕ) : (s.modify n change).requests m =
    if m = n then (s.requests m).map change else s.requests m := by
  unfold State.modify
  by_cases hm : m = n
  · subst hm
    rw [if_pos rfl]
    exact Function.update_self ..
  · rw [if_neg hm]
    exact Function.update_of_ne hm ..

theorem State.Sound.modify (h : s.Sound)
    (hchange : ∀ request, s.requests n = some request → Advances s.reasons request (change request)) :
    (s.modify n change).Sound where
  fresh m hm := by
    rw [modify_requests, h.fresh m hm]
    exact ite_self _
  onFile m next hnext hunsettled := by
    rw [modify_requests] at hnext
    split_ifs at hnext with hm
    · obtain ⟨request, hrequest, rfl⟩ := Option.map_eq_some_iff.mp hnext
      subst hm
      rw [(hchange request hrequest).url]
      exact h.onFile m request hrequest ((hchange request hrequest).unsettled hunsettled)
    · exact h.onFile m next hnext hunsettled
  driven m next attempt hnext hphase := by
    rw [modify_requests] at hnext
    split_ifs at hnext with hm
    · obtain ⟨request, hrequest, rfl⟩ := Option.map_eq_some_iff.mp hnext
      subst hm
      exact (hchange request hrequest).driven (fun other hother => h.driven m request other hrequest hother) attempt
        hphase
    · exact h.driven m next attempt hnext hphase
  timed m next hnext := by
    rw [modify_requests] at hnext
    split_ifs at hnext with hm
    · obtain ⟨request, hrequest, rfl⟩ := Option.map_eq_some_iff.mp hnext
      subst hm
      exact (hchange request hrequest).timed (h.timed m request hrequest)
    · exact h.timed m next hnext

theorem Isolated.modify (h : Isolated s) (hchange : ∀ request, Discreet request (change request)) :
    Isolated (s.modify n change) := by
  intro m next err signal hnext hrejected hby
  rw [modify_requests] at hnext
  split_ifs at hnext with hm
  · obtain ⟨request, hrequest, rfl⟩ := Option.map_eq_some_iff.mp hnext
    obtain ⟨hbefore, hcallers⟩ := hchange request err signal hrejected hby
    intro caller hcaller
    rw [hcallers] at hcaller
    exact h m request err signal hrequest hbefore hby caller hcaller
  · exact h m next err signal hnext hrejected hby

theorem Request.not_unsettled {outcome : Except (FetchError U S) Json} (h : request.phase = .settled outcome) :
    ¬request.Unsettled := fun hunsettled => hunsettled outcome h

theorem State.Sound.mark (h : s.Sound) (hphase : ∀ request, (change request).phase = request.phase)
    (hurl : ∀ request, (change request).url = request.url) (hsignal : ∀ request, (change request).signal = request.signal)
    (htimer : ∀ request, (change request).timer = true → request.timer = true) : (s.modify n change).Sound :=
  h.modify fun request _ => .of_phase (hphase request) (hurl request) (hsignal request) (htimer request)

variable [DecidableEq U]

theorem State.Sound.drop (h : s.Sound) (hfile : ∀ n request, s.inFlightRequests url = some n →
    s.requests n = some request → ¬request.Unsettled) :
    ({ s with inFlightRequests := Function.update s.inFlightRequests url none } : State U S).Sound where
  fresh := h.fresh
  onFile m request hrequest hunsettled := by
    have hon := h.onFile m request hrequest hunsettled
    by_cases hurl : request.url = url
    · rw [hurl] at hon
      exact absurd hunsettled (hfile m request hon hrequest)
    · exact (Function.update_of_ne hurl ..).trans hon
  driven := h.driven
  timed := h.timed

theorem State.Sound.forget (h : s.Sound) (hfile : ∀ n request, s.inFlightRequests url = some n →
    s.requests n = some request → ¬request.Unsettled) : (s.forget url).Sound := by
  unfold State.forget
  split
  · exact h
  · rename_i n hn
    have hmarked : (s.modify n fun request => { request with timer := false }).Sound :=
      h.mark (fun _ => rfl) (fun _ => rfl) (fun _ => rfl) fun _ h => absurd h Bool.false_ne_true
    apply hmarked.drop
    intro m next hm hnext hunsettled
    change s.inFlightRequests url = some m at hm
    rw [modify_requests] at hnext
    split_ifs at hnext with hmn
    · obtain ⟨request, hrequest, rfl⟩ := Option.map_eq_some_iff.mp hnext
      exact hfile m request hm hrequest hunsettled
    · exact hfile m next hm hnext hunsettled

theorem Isolated.forget (h : Isolated s) : Isolated (s.forget url) := by
  unfold State.forget
  split
  · exact h
  · rename_i n _
    have hmarked : Isolated (s.modify n fun request => { request with timer := false }) :=
      h.modify fun request => .of_phase rfl rfl
    exact hmarked

theorem State.Sound.settles (h : s.Sound) (n : ℕ) : (s.settles n).Sound := by
  unfold State.settles
  split
  · exact h
  · rename_i request hrequest
    by_cases hhandled : request.handled = true
    · rw [if_pos hhandled]
      exact h
    · rw [if_neg hhandled]
      cases hphase : request.phase with
      | fetching attempt => exact h
      | sleeping number => exact h
      | settled outcome =>
        cases outcome with
        | ok json =>
          apply h.modify
          intro other hother
          rw [hrequest] at hother
          cases hother
          exact ⟨rfl, id, fun hdriven => hdriven, fun _ _ => Request.not_unsettled hphase⟩
        | error err =>
          have hmarked : (s.modify n fun request => { request with handled := true }).Sound :=
            h.mark (fun _ => rfl) (fun _ => rfl) (fun _ => rfl) fun _ => id
          dsimp only
          split_ifs with hfile
          · apply hmarked.forget
            intro m other hm hother
            change s.inFlightRequests request.url = some m at hm
            rw [hfile] at hm
            cases hm
            rw [modify_requests, if_pos rfl, hrequest] at hother
            cases hother
            exact Request.not_unsettled hphase
          · exact hmarked

theorem Isolated.settles (h : Isolated s) (n : ℕ) : Isolated (s.settles n) := by
  unfold State.settles
  split
  · exact h
  · rename_i request hrequest
    by_cases hhandled : request.handled = true
    · rw [if_pos hhandled]
      exact h
    · rw [if_neg hhandled]
      cases request.phase with
      | fetching attempt => exact h
      | sleeping number => exact h
      | settled outcome =>
        cases outcome with
        | ok json => exact h.modify fun request => .of_phase rfl rfl
        | error err =>
          have hmarked : Isolated (s.modify n fun request => { request with handled := true }) :=
            h.modify fun request => .of_phase rfl rfl
          dsimp only
          split_ifs
          · exact hmarked.forget
          · exact hmarked

theorem State.Sound.expires (h : s.Sound) (n : ℕ) : (s.expires n).Sound := by
  unfold State.expires
  split
  · exact h
  · rename_i request hrequest
    have hfired : (s.modify n fun request => { request with timer := false }).Sound :=
      h.mark (fun _ => rfl) (fun _ => rfl) (fun _ => rfl) nofun
    dsimp only
    split_ifs with htimer hfile
    · apply hfired.drop
      intro m other hm hother
      change s.inFlightRequests request.url = some m at hm
      rw [hfile] at hm
      cases hm
      rw [modify_requests, if_pos rfl, hrequest] at hother
      cases hother
      exact h.timed n request hrequest htimer
    · exact hfired
    · exact h

theorem Isolated.expires (h : Isolated s) (n : ℕ) : Isolated (s.expires n) := by
  unfold State.expires
  split
  · exact h
  · have hfired : Isolated (s.modify n fun request => { request with timer := false }) :=
      h.modify fun request => .of_phase rfl rfl
    dsimp only
    split_ifs
    · exact hfired
    · exact hfired
    · exact h

end Soundness

section Calls

variable {U S : Type} {s : State U S} {url : U} {signal : Option S} {policy : FetchPolicy}

theorem fetchWithRetry_rejected {reasons : S → Option ErrorKind} {err : FetchError U S}
    (h : (fetchWithRetry reasons url signal policy).Rejected err) : err.abortedBy = none := by
  change (if _ then _ else _) = _ at h
  split_ifs at h
  cases h
  rfl

theorem fetchWithRetry_driven {reasons : S → Option ErrorKind} {attempt : Attempt U S}
    (h : (fetchWithRetry reasons url signal policy).phase = .fetching attempt) :
    (fetchWithRetry reasons url signal policy).Driven reasons attempt := by
  change (if _ then _ else _) = _ at h
  split_ifs at h
  cases h
  have hwakes : Advances reasons ⟨url, signal, policy, [], .sleeping 0, false, false⟩ _ := wakes_advances
  exact hwakes.driven nofun _ rfl

theorem update_eq_some {requests : ℕ → Option (Request U S)} {next m : ℕ} {started request : Request U S}
    (h : Function.update requests next (some started) m = some request) :
    (m = next ∧ request = started) ∨ requests m = some request := by
  by_cases hm : m = next
  · subst hm
    rw [Function.update_self] at h
    cases h
    exact .inl ⟨rfl, rfl⟩
  · rw [Function.update_of_ne hm] at h
    exact .inr h

variable [DecidableEq U]

theorem State.Sound.call (h : s.Sound) : (dedupedFetchJson s url signal policy).Sound := by
  unfold dedupedFetchJson
  split
  · exact h.mark (fun _ => rfl) (fun _ => rfl) (fun _ => rfl) fun _ => id
  · rename_i hnone
    refine ⟨fun m hm => ?_, fun m request hrequest hunsettled => ?_, fun m request attempt hrequest hphase => ?_,
      fun m request hrequest htimer => ?_⟩
    · have hlater : s.next + 1 ≤ m := hm
      exact (Function.update_of_ne (by omega) ..).trans (h.fresh m (by omega))
    · obtain ⟨rfl, rfl⟩ | hrequest := update_eq_some hrequest
      · exact Function.update_self ..
      · have hfile := h.onFile m request hrequest hunsettled
        by_cases hurl : request.url = url
        · rw [hurl, hnone] at hfile
          cases hfile
        · exact (Function.update_of_ne hurl ..).trans hfile
    · obtain ⟨rfl, rfl⟩ | hrequest := update_eq_some hrequest
      · exact fetchWithRetry_driven hphase
      · exact h.driven m request attempt hrequest hphase
    · obtain ⟨rfl, rfl⟩ | hrequest := update_eq_some hrequest
      · cases htimer
      · exact h.timed m request hrequest htimer

theorem Isolated.call_iff (h : Isolated s) :
    Isolated (dedupedFetchJson s url signal policy) ↔ Considerate s (.call url signal policy) := by
  unfold dedupedFetchJson
  split
  · rename_i n hfile
    constructor
    · intro hnext m request err by_ hm hrequest hrejected hby
      rw [hfile] at hm
      cases hm
      exact hnext n { request with callers := request.callers ++ [signal] } err by_
        (by rw [modify_requests, if_pos rfl, hrequest]; rfl) hrejected hby signal
        (List.mem_append_right _ (List.mem_singleton_self _))
    · intro hcall m next err by_ hnext hrejected hby
      rw [modify_requests] at hnext
      split_ifs at hnext with hm
      · subst hm
        obtain ⟨request, hrequest, rfl⟩ := Option.map_eq_some_iff.mp hnext
        intro caller hcaller
        rcases List.mem_append.mp hcaller with hcaller | hcaller
        · exact h m request err by_ hrequest hrejected hby caller hcaller
        · rw [List.mem_singleton.mp hcaller]
          exact hcall m request err by_ hfile hrequest hrejected hby
      · exact h m next err by_ hnext hrejected hby
  · rename_i hnone
    constructor
    · intro _ m request err by_ hm
      rw [hnone] at hm
      cases hm
    · intro _ m request err by_ hrequest hrejected hby
      obtain ⟨rfl, rfl⟩ | hrequest := update_eq_some hrequest
      · rw [fetchWithRetry_rejected hrejected] at hby
        cases hby
      · exact h m request err by_ hrequest hrejected hby

end Calls

section Aborts

variable {U S : Type} {s : State U S} {signal : S} {kind : ErrorKind} {n : ℕ}

theorem Isolated.aborts_iff (h : Isolated s) (hsound : s.Sound) :
    Isolated (s.modify n (Request.aborts s.reasons)) ↔ Considerate s (.aborts n) := by
  have hcallers : ∀ request : Request U S, (request.aborts s.reasons).callers = request.callers := by
    intro request
    unfold Request.aborts
    split
    · split
      · unfold Request.fails
        split <;> rfl
      · rfl
    · rfl
  constructor
  · intro hnext request attempt hrequest hphase hpasses
    obtain ⟨err, by_, hrejected, hby⟩ :=
      (Request.aborts_rejected hphase (hsound.driven n request attempt hrequest hphase)).mpr hpasses
    intro caller hcaller
    refine hnext n (request.aborts s.reasons) err by_ ?_ hrejected hby caller ((hcallers request).symm ▸ hcaller)
    rw [modify_requests, if_pos rfl, hrequest]
    rfl
  · intro hconsiderate m next err by_ hnext hrejected hby
    rw [modify_requests] at hnext
    split_ifs at hnext with hm
    · subst hm
      obtain ⟨request, hrequest, rfl⟩ := Option.map_eq_some_iff.mp hnext
      intro caller hcaller
      rw [hcallers] at hcaller
      cases hphase : request.phase with
      | fetching attempt =>
        have hpasses := (Request.aborts_rejected hphase (hsound.driven m request attempt hrequest hphase)).mp
          ⟨err, by_, hrejected, hby⟩
        exact hconsiderate request attempt hrequest hphase hpasses caller hcaller
      | sleeping number =>
        unfold Request.Rejected Request.aborts at hrejected
        rw [hphase] at hrejected
        dsimp only at hrejected
        rw [hphase] at hrejected
        cases hrejected
      | settled outcome =>
        unfold Request.Rejected Request.aborts at hrejected
        rw [hphase] at hrejected
        exact h m request err by_ hrequest hrejected hby caller hcaller
    · exact h m next err by_ hnext hrejected hby

variable [DecidableEq S]

theorem hears_phase {request : Request U S} {outcome : Except (FetchError U S) Json} :
    (request.hears signal kind).phase = .settled outcome ↔ request.phase = .settled outcome := by
  unfold Request.hears
  split
  · rename_i attempt hphase
    split_ifs <;> simp [hphase]
  · exact Iff.rfl

theorem hears_same (request : Request U S) : (request.hears signal kind).url = request.url ∧
    (request.hears signal kind).signal = request.signal ∧ (request.hears signal kind).callers = request.callers ∧
    (request.hears signal kind).timer = request.timer := by
  unfold Request.hears
  split
  · split_ifs <;> exact ⟨rfl, rfl, rfl, rfl⟩
  · exact ⟨rfl, rfl, rfl, rfl⟩

theorem hears_unsettled {request : Request U S} : (request.hears signal kind).Unsettled ↔ request.Unsettled :=
  forall_congr' fun _ => not_congr hears_phase

theorem reasons_update {reasons : S → Option ErrorKind} (hfresh : reasons signal = none) {other : S} {found : ErrorKind}
    (h : reasons other = some found) : Function.update reasons signal (some kind) other = some found := by
  by_cases hother : other = signal
  · subst hother
    rw [hfresh] at h
    cases h
  · exact (Function.update_of_ne hother ..).trans h

theorem aborted_update {reasons : S → Option ErrorKind} (hfresh : reasons signal = none) {caller : Option S}
    (h : aborted reasons caller = true) : aborted (Function.update reasons signal (some kind)) caller = true := by
  obtain ⟨found, hfound⟩ := Option.isSome_iff_exists.mp h
  obtain ⟨own, rfl, hown⟩ := Option.bind_eq_some_iff.mp hfound
  exact Option.isSome_iff_exists.mpr ⟨found, reasons_update hfresh hown⟩

theorem hears_driven {reasons : S → Option ErrorKind} (hfresh : reasons signal = none) {request : Request U S}
    (hdriven : ∀ attempt, request.phase = .fetching attempt → request.Driven reasons attempt) {attempt : Attempt U S}
    (hphase : (request.hears signal kind).phase = .fetching attempt) :
    (request.hears signal kind).Driven (Function.update reasons signal (some kind)) attempt := by
  have hgrow : ∀ before : Attempt U S, request.phase = .fetching before →
      request.Driven (Function.update reasons signal (some kind)) before := by
    intro before hbefore err hcombined
    obtain hown | ⟨driver, found, rfl, hsignal, hfound⟩ := hdriven before hbefore err hcombined
    · exact .inl hown
    · exact .inr ⟨driver, found, rfl, hsignal, reasons_update hfresh hfound⟩
  intro err hcombined
  rw [(hears_same request).2.1]
  unfold Request.hears at hphase
  split at hphase
  · rename_i before hbefore
    split_ifs at hphase with hsignal
    · cases hphase
      cases hfirst : before.combined with
      | none =>
        rw [hfirst] at hcombined
        cases hcombined
        exact .inr ⟨signal, kind, rfl, hsignal, Function.update_self ..⟩
      | some reason =>
        rw [hfirst] at hcombined
        cases hcombined
        exact hgrow before hbefore err hfirst
    · exact hgrow attempt hphase err hcombined
  · exact hgrow attempt hphase err hcombined

theorem State.Sound.abort (h : s.Sound) : (s.abort signal kind).Sound := by
  unfold State.abort
  split
  · exact h
  · rename_i hfresh
    refine ⟨fun m hm => ?_, fun m next hnext hunsettled => ?_, fun m next attempt hnext hphase => ?_,
      fun m next hnext htimer => ?_⟩
    · exact congrArg (Option.map (Request.hears signal kind)) (h.fresh m hm)
    all_goals obtain ⟨request, hrequest, rfl⟩ := Option.map_eq_some_iff.mp hnext
    · rw [(hears_same request).1]
      exact h.onFile m request hrequest (hears_unsettled.mp hunsettled)
    · exact hears_driven hfresh (fun before => h.driven m request before hrequest) hphase
    · rw [(hears_same request).2.2.2] at htimer
      rw [hears_unsettled]
      exact h.timed m request hrequest htimer

theorem Isolated.abort (h : Isolated s) : Isolated (s.abort signal kind) := by
  unfold State.abort
  split
  · exact h
  · rename_i hfresh
    intro m next err by_ hnext hrejected hby caller hcaller
    obtain ⟨request, hrequest, rfl⟩ := Option.map_eq_some_iff.mp hnext
    rw [(hears_same request).2.2.1] at hcaller
    exact aborted_update hfresh (h m request err by_ hrequest (hears_phase.mp hrejected) hby caller hcaller)

end Aborts

section Runs

variable {U S : Type} {s : State U S}

theorem State.sound_empty : (State.empty : State U S).Sound := ⟨fun _ _ => rfl, nofun, nofun, nofun⟩

variable [DecidableEq U] [DecidableEq S]

theorem State.Sound.step (h : s.Sound) (event : Event U S) : (s.step event).Sound := by
  cases event with
  | call url signal policy => exact h.call
  | abort signal kind => exact h.abort
  | deadline n => exact h.modify fun _ _ => deadline_advances
  | responds n status => exact h.modify fun _ _ => responds_advances status
  | body n json => exact h.modify fun _ _ => body_advances json
  | fails n kind => exact h.modify fun _ _ => fails_advances _
  | aborts n => exact h.modify fun _ _ => aborts_advances
  | wakes n => exact h.modify fun _ _ => wakes_advances
  | settles n => exact h.settles n
  | expires n => exact h.expires n

theorem Isolated.step_iff (h : Isolated s) (hsound : s.Sound) (event : Event U S) :
    Isolated (s.step event) ↔ Considerate s event := by
  cases event with
  | call url signal policy => exact h.call_iff
  | aborts n => exact h.aborts_iff hsound
  | abort signal kind => exact iff_of_true h.abort trivial
  | deadline n => exact iff_of_true (h.modify fun _ => deadline_discreet) trivial
  | responds n status => exact iff_of_true (h.modify fun _ => responds_discreet status) trivial
  | body n json => exact iff_of_true (h.modify fun _ => body_discreet json) trivial
  | fails n kind => exact iff_of_true (h.modify fun _ => fails_discreet rfl) trivial
  | wakes n => exact iff_of_true (h.modify fun _ => wakes_discreet) trivial
  | settles n => exact iff_of_true (h.settles n) trivial
  | expires n => exact iff_of_true (h.expires n) trivial

theorem callers_isolated_iff (events : List (Event U S)) :
    Always State.step AtMostOne (State.empty : State U S) events ∧
      (Always State.step Isolated (State.empty : State U S) events ↔
        EachStep State.step Considerate (State.empty : State U S) events) := by
  have hempty : Isolated (State.empty : State U S) := nofun
  constructor
  · rw [always_iff_eachStep State.sound_empty.atMostOne]
    have hsound : EachStep State.step (fun _ _ => True) (State.empty : State U S) events :=
      EachStep.of_forall (C := fun _ => True) (fun _ _ => trivial) _
    exact hsound.imp (fun _ event h _ => h.step event) (fun _ event h _ => (h.step event).atMostOne) State.sound_empty
  · rw [always_iff_eachStep hempty]
    exact eachStep_iff (I := fun s => s.Sound ∧ Isolated s) (fun _ event h hnext => ⟨h.1.step event, hnext⟩)
      (fun _ event h => h.2.step_iff h.1 event) ⟨State.sound_empty, hempty⟩ events

theorem starter_abort_spreads : ¬Always State.step (fun s => AtMostOne s ∧ Isolated s) (State.empty : State ℕ ℕ)
    [.call 0 (some 0) (defaultFetchPolicy 10000), .call 0 none (defaultFetchPolicy 10000), .abort 0 .abort,
      .aborts 0] := by
  -- a second caller without a signal gets the first one's abort
  intro h
  have hspread := h.run.2 0 _ (.reason 0 .abort) 0 rfl rfl rfl none (by decide)
  cases hspread

end Runs

end CrashLab.RequestDedup
