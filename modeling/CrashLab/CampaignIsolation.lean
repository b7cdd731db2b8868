import CrashLab.CampaignTurns

namespace CrashLab.Idempotency

open JsStrings JsonTexts

namespace InMemoryIdempotencyStore

variable {ι ρ : Type} {store : InMemoryIdempotencyStore ι ρ} {now later : ℕ} {id id' : JsString}

theorem liveAt_later (h : now ≤ later) :
    store.liveAt later id = (store.liveAt now id).filter fun record => !decide (record.expiresAt ≤ later) := by
  unfold liveAt
  rw [Option.filter_filter]
  apply congrArg (Option.filter · (store.records id))
  funext record
  by_cases hlater : record.expiresAt ≤ later
  · simp [hlater]
  · have hnow : ¬record.expiresAt ≤ now := fun hexpired => hlater (hexpired.trans h)
    simp [hlater, hnow]

theorem liveAt_idem : (store.liveAt now id).filter (fun record => !decide (record.expiresAt ≤ now)) =
    store.liveAt now id := (liveAt_later le_rfl).symm

theorem liveAt_get (scope key : JsString) : (store.get now scope key).2.liveAt now id' = store.liveAt now id' := by
  rw [get, liveAt, live_records, Function.update_apply]
  split_ifs with h
  · rw [h, liveAt_idem]
  · rfl

theorem liveAt_putIfAbsent {record : IdempotencyRecord ι ρ} (h : now < record.expiresAt) :
    (store.putIfAbsent now record).2.liveAt now id =
      if id = storageKey record.scope record.key then some (store.putIfAbsent now record).1
      else store.liveAt now id := by
  obtain ⟨hfst, hsnd⟩ := store.putIfAbsent_spec now record
  rw [liveAt, hsnd, hfst, Function.update_apply]
  split_ifs with heq
  · cases hlive : store.liveAt now (storageKey record.scope record.key) with
    | none => simp [Option.filter, h]
    | some existing =>
      have hself : (store.liveAt now (storageKey record.scope record.key)).filter
          (fun record => !decide (record.expiresAt ≤ now)) = _ := liveAt_idem
      rw [hlive] at hself
      exact hself
  · rfl

end InMemoryIdempotencyStore

end CrashLab.Idempotency

namespace CrashLab.Campaigns

open JsStrings JsonTexts Admission Idempotency UsageLedger Histories

variable {ι : Type} [DecidableEq ι] {env : Deployment} (requests : ι → CampaignRequest) (other : String)
  (key fresh : JsString)

def OtherUse (i : ι) : Prop := (requests i).principal = other ∧ keyOf (requests i) = some key

instance OtherUse.decidable (i : ι) : Decidable (OtherUse requests other key i) :=
  inferInstanceAs (Decidable (_ ∧ _))

def rekeyed (i : ι) : CampaignRequest :=
  if OtherUse requests other key i then { requests i with idempotencyKey := some fresh } else requests i

def rekeyRecord (record : IdempotencyRecord ι CampaignResponse) : IdempotencyRecord ι CampaignResponse :=
  { record with key := fresh }

def rekeyReply : Reply → Reply
  | .created response _ => .created response (some fresh)
  | .replayed response _ => .replayed response fresh
  | reply => reply

def rekeyStage : Stage ι → Stage ι
  | .lookingUp existing => .lookingUp (existing.map (rekeyRecord fresh))
  | .storing draft winner => .storing draft (rekeyRecord fresh winner)
  | .answered reply => .answered (rekeyReply fresh reply)
  | stage => stage

namespace RouteState

variable (env) in
def consults (s : RouteState ι) (turn : Turn ι) : Bool :=
  match s.stages turn.request with
  | .received => true
  | .lookingUp none => (reservation env requests s turn).isSome
  | .authorising _ _ => turn.maintainer
  | _ => false

variable (env) in
def Separate (s : RouteState ι) (turn : Turn ι) : Prop :=
  keyOf (requests turn.request) = some key → consults env requests s turn = true →
    ∀ record ∈ s.store.liveAt turn.now (storageKey idempotencyScope key),
      (OtherUse requests other key record.builtBy ↔ OtherUse requests other key turn.request)

def replyOf (s : RouteState ι) (i : ι) : Option Reply :=
  match s.stages i with
  | .answered reply => some reply
  | _ => none

structure StoresRelated (now : ℕ) (store store' : InMemoryIdempotencyStore ι CampaignResponse) : Prop where
  own : store'.liveAt now (storageKey idempotencyScope key) =
    (store.liveAt now (storageKey idempotencyScope key)).filter fun record =>
      !decide (OtherUse requests other key record.builtBy)
  moved : store'.liveAt now (storageKey idempotencyScope fresh) =
    ((store.liveAt now (storageKey idempotencyScope key)).filter fun record =>
      decide (OtherUse requests other key record.builtBy)).map (rekeyRecord fresh)
  others : ∀ k, k ≠ key → k ≠ fresh →
    store'.liveAt now (storageKey idempotencyScope k) = store.liveAt now (storageKey idempotencyScope k)

structure Related (now : ℕ) (s s' : RouteState ι) : Prop where
  ledger : s'.ledger = s.ledger
  campaigns : s'.campaigns = s.campaigns
  stages : ∀ i, s'.stages i = if OtherUse requests other key i then rekeyStage fresh (s.stages i) else s.stages i
  stores : StoresRelated requests other key fresh now s.store s'.store

variable {requests other key fresh}

section Stores

variable {now : ℕ} {store store' : InMemoryIdempotencyStore ι CampaignResponse}

omit [DecidableEq ι] in
theorem StoresRelated.later (h : StoresRelated requests other key fresh now store store') {later : ℕ}
    (hle : now ≤ later) : StoresRelated requests other key fresh later store store' where
  own := by
    rw [InMemoryIdempotencyStore.liveAt_later hle, h.own, InMemoryIdempotencyStore.liveAt_later hle,
      Option.filter_filter, Option.filter_filter]
    simp only [Bool.and_comm]
  moved := by
    have hlater : store.liveAt later (storageKey idempotencyScope key) =
        (store.liveAt now (storageKey idempotencyScope key)).filter fun record => !decide (record.expiresAt ≤ later) :=
      InMemoryIdempotencyStore.liveAt_later hle
    rw [InMemoryIdempotencyStore.liveAt_later hle, h.moved, hlater]
    cases store.liveAt now (storageKey idempotencyScope key) with
    | none => rfl
    | some record =>
      by_cases hmoved : OtherUse requests other key record.builtBy <;>
        by_cases hexpired : record.expiresAt ≤ later <;>
          simp [Option.filter, hmoved, hexpired, rekeyRecord]
  others k hk hk' := by
    have hlater : store.liveAt later (storageKey idempotencyScope k) =
        (store.liveAt now (storageKey idempotencyScope k)).filter fun record => !decide (record.expiresAt ≤ later) :=
      InMemoryIdempotencyStore.liveAt_later hle
    rw [InMemoryIdempotencyStore.liveAt_later hle, h.others k hk hk', hlater]

omit [DecidableEq ι] in
theorem StoresRelated.lookup (h : StoresRelated requests other key fresh now store store')
    (hfresh : ∀ j, keyOf (requests j) ≠ some fresh) {i : ι} {k : JsString} (hk : keyOf (requests i) = some k)
    (hseparate : k = key → ∀ record ∈ store.liveAt now (storageKey idempotencyScope key),
      (OtherUse requests other key record.builtBy ↔ OtherUse requests other key i)) :
    store'.liveAt now (storageKey idempotencyScope (if OtherUse requests other key i then fresh else k)) =
      if OtherUse requests other key i then (store.liveAt now (storageKey idempotencyScope k)).map (rekeyRecord fresh)
      else store.liveAt now (storageKey idempotencyScope k) := by
  by_cases hother : OtherUse requests other key i
  · have hkey : k = key := Option.some.inj (hk.symm.trans hother.2)
    rw [if_pos hother, if_pos hother, h.moved, hkey]
    cases hlive : store.liveAt now (storageKey idempotencyScope key) with
    | none => rfl
    | some record =>
      have hbuilt := (hseparate hkey record hlive).mpr hother
      simp [Option.filter, hbuilt]
  · rw [if_neg hother, if_neg hother]
    by_cases hkey : k = key
    · rw [hkey, h.own]
      cases hlive : store.liveAt now (storageKey idempotencyScope key) with
      | none => rfl
      | some record =>
        have hbuilt := (not_congr (hseparate hkey record hlive)).mpr hother
        simp [Option.filter, hbuilt]
    · apply h.others k hkey
      rintro rfl
      exact hfresh i hk

omit [DecidableEq ι] in
theorem StoresRelated.get (h : StoresRelated requests other key fresh now store store') (k k' : JsString) :
    StoresRelated requests other key fresh now (store.get now idempotencyScope k).2
      (store'.get now idempotencyScope k').2 where
  own := by simp only [InMemoryIdempotencyStore.liveAt_get, h.own]
  moved := by simp only [InMemoryIdempotencyStore.liveAt_get, h.moved]
  others j hj hj' := by simp only [InMemoryIdempotencyStore.liveAt_get, h.others j hj hj']

omit [DecidableEq ι] in
theorem StoresRelated.put (h : StoresRelated requests other key fresh now store store')
    (hfresh : ∀ j, keyOf (requests j) ≠ some fresh) {i : ι} {k : JsString} (hk : keyOf (requests i) = some k)
    (hseparate : k = key → ∀ record ∈ store.liveAt now (storageKey idempotencyScope key),
      (OtherUse requests other key record.builtBy ↔ OtherUse requests other key i))
    {record record' : IdempotencyRecord ι CampaignResponse}
    (hrecord : record.scope = idempotencyScope ∧ record.key = k ∧ record.builtBy = i ∧ now < record.expiresAt)
    (hrecord' : record' = if OtherUse requests other key i then rekeyRecord fresh record else record) :
    ((store'.putIfAbsent now record').1 =
        if OtherUse requests other key i then rekeyRecord fresh (store.putIfAbsent now record).1
        else (store.putIfAbsent now record).1) ∧
      StoresRelated requests other key fresh now (store.putIfAbsent now record).2 (store'.putIfAbsent now record').2 := by
  obtain ⟨hscope, hkeyed, hbuilt, hnow⟩ := hrecord
  have hlookup := h.lookup hfresh hk hseparate
  have hne : k ≠ fresh := fun heq => hfresh i (heq ▸ hk)
  have hid : storageKey record.scope record.key = storageKey idempotencyScope k := by rw [hscope, hkeyed]
  have hid' : storageKey record'.scope record'.key =
      storageKey idempotencyScope (if OtherUse requests other key i then fresh else k) := by
    rw [hrecord']
    split_ifs
    · rw [rekeyRecord, hscope]
    · exact hid
  have hnow' : now < record'.expiresAt := by
    rw [hrecord']
    split_ifs <;> exact hnow
  have hwinner : (store'.putIfAbsent now record').1 =
      if OtherUse requests other key i then rekeyRecord fresh (store.putIfAbsent now record).1
      else (store.putIfAbsent now record).1 := by
    rw [(store'.putIfAbsent_spec now record').1, (store.putIfAbsent_spec now record).1, hid, hid', hlookup, hrecord']
    split_ifs
    · exact Option.getD_map _ _ _
    · rfl
  have hside : k = key →
      (OtherUse requests other key (store.putIfAbsent now record).1.builtBy ↔ OtherUse requests other key i) := by
    intro hkey
    rw [(store.putIfAbsent_spec now record).1, hid, hkey]
    cases hlive : store.liveAt now (storageKey idempotencyScope key) with
    | none => rw [Option.getD_none, hbuilt]
    | some existing => exact hseparate hkey existing hlive
  have hafter : ∀ j, (store.putIfAbsent now record).2.liveAt now (storageKey idempotencyScope j) =
      if j = k then some (store.putIfAbsent now record).1 else store.liveAt now (storageKey idempotencyScope j) := by
    intro j
    rw [InMemoryIdempotencyStore.liveAt_putIfAbsent hnow, hid]
    simp only [(storageKey_injective _).eq_iff]
  have hafter' : ∀ j, (store'.putIfAbsent now record').2.liveAt now (storageKey idempotencyScope j) =
      if j = (if OtherUse requests other key i then fresh else k) then some (store'.putIfAbsent now record').1
      else store'.liveAt now (storageKey idempotencyScope j) := by
    intro j
    rw [InMemoryIdempotencyStore.liveAt_putIfAbsent hnow', hid']
    simp only [(storageKey_injective _).eq_iff]
  refine ⟨hwinner, ?_⟩
  generalize (store.putIfAbsent now record).1 = winner at *
  generalize (store'.putIfAbsent now record').1 = winner' at *
  by_cases hother : OtherUse requests other key i
  · have hkey : k = key := Option.some.inj (hk.symm.trans hother.2)
    subst hkey
    have hmine := (hside rfl).mpr hother
    simp only [hother, ↓reduceIte] at hwinner hafter'
    refine ⟨?_, ?_, ?_⟩
    · rw [hafter' k, if_neg hne, hafter k, if_pos rfl, h.own]
      cases hlive : store.liveAt now (storageKey idempotencyScope k) with
      | none => simp [Option.filter, hmine]
      | some existing =>
        have := (hseparate rfl existing hlive).mpr hother
        simp [Option.filter, hmine, this]
    · rw [hafter' fresh, if_pos rfl, hafter k, if_pos rfl, hwinner]
      simp [Option.filter, hmine]
    · intro j hj hj'
      rw [hafter' j, if_neg hj', hafter j, if_neg hj]
      exact h.others j hj hj'
  · simp only [hother, ↓reduceIte] at hwinner hafter'
    by_cases hkey : k = key
    · subst hkey
      have hnot := (not_congr (hside rfl)).mpr hother
      refine ⟨?_, ?_, ?_⟩
      · rw [hafter' k, if_pos rfl, hafter k, if_pos rfl, hwinner]
        simp [Option.filter, hnot]
      · rw [hafter' fresh, if_neg hne.symm, hafter k, if_pos rfl, h.moved]
        cases hlive : store.liveAt now (storageKey idempotencyScope k) with
        | none => simp [Option.filter, hnot]
        | some existing =>
          have := (not_congr (hseparate rfl existing hlive)).mpr hother
          simp [Option.filter, hnot, this]
      · intro j hj hj'
        rw [hafter' j, if_neg hj, hafter j, if_neg hj]
        exact h.others j hj hj'
    · refine ⟨?_, ?_, ?_⟩
      · rw [hafter' key, if_neg (Ne.symm hkey), hafter key, if_neg (Ne.symm hkey)]
        exact h.own
      · rw [hafter' fresh, if_neg hne.symm, hafter key, if_neg (Ne.symm hkey)]
        exact h.moved
      · intro j hj hj'
        rw [hafter' j, hafter j, hwinner, h.others j hj hj']

end Stores

section Requests

omit [DecidableEq ι] in
theorem body_rekeyed (i : ι) : (rekeyed requests other key fresh i).body = (requests i).body := by
  unfold rekeyed
  split_ifs <;> rfl

omit [DecidableEq ι] in
theorem quotaOverride_rekeyed (i : ι) :
    (rekeyed requests other key fresh i).quotaOverride = (requests i).quotaOverride := by
  unfold rekeyed
  split_ifs <;> rfl

omit [DecidableEq ι] in
@[simp] theorem payloadOf_rekeyed (i : ι) : payloadOf (rekeyed requests other key fresh i) = payloadOf (requests i) := by
  rw [payloadOf, body_rekeyed, ← payloadOf]

omit [DecidableEq ι] in
theorem parse_rekeyed (hvalid : parseIdempotencyKey (some fresh) = .ok (some fresh)) (i : ι) :
    parseIdempotencyKey (rekeyed requests other key fresh i).idempotencyKey =
      if OtherUse requests other key i then .ok (some fresh) else parseIdempotencyKey (requests i).idempotencyKey := by
  unfold rekeyed
  split_ifs
  · exact hvalid
  · rfl

omit [DecidableEq ι] in
theorem keyOf_rekeyed (hvalid : parseIdempotencyKey (some fresh) = .ok (some fresh)) (i : ι) :
    keyOf (rekeyed requests other key fresh i) =
      if OtherUse requests other key i then some fresh else keyOf (requests i) := by
  rw [keyOf, parse_rekeyed hvalid]
  split_ifs <;> rfl

omit [DecidableEq ι] in
theorem draftFor_rekeyed (turn : Turn ι) (resources : CampaignResourceRequest) (createdAt : ℕ) (quotaOverride : Bool) :
    draftFor (rekeyed requests other key fresh) turn resources createdAt quotaOverride =
      draftFor requests turn resources createdAt quotaOverride := by
  simp only [draftFor, payloadOf_rekeyed]

end Requests

section Turns

variable {now : ℕ} {s s' : RouteState ι}

theorem Related.setStage (h : Related requests other key fresh now s s') {i : ι} {stage stage' : Stage ι}
    (hstage : stage' = if OtherUse requests other key i then rekeyStage fresh stage else stage) :
    Related requests other key fresh now (s.setStage i stage) (s'.setStage i stage') := by
  refine ⟨h.ledger, h.campaigns, fun j => ?_, h.stores⟩
  by_cases hj : j = i
  · rw [hj, setStage_self, setStage_self, hstage]
  · rw [setStage_of_ne _ _ hj, setStage_of_ne _ _ hj]
    exact h.stages j

theorem Related.answer (h : Related requests other key fresh now s s') (i : ι) {reply reply' : Reply}
    (hreply : reply' = if OtherUse requests other key i then rekeyReply fresh reply else reply) :
    Related requests other key fresh now (s.answer i reply) (s'.answer i reply') := by
  apply h.setStage
  rw [hreply]
  split_ifs <;> rfl

theorem Related.refused (h : Related requests other key fresh now s s') (i : ι) {reply : Reply}
    (hreply : rekeyReply fresh reply = reply) :
    Related requests other key fresh now (s.answer i reply) (s'.answer i reply) := by
  apply h.answer
  rw [hreply, ite_self]

theorem Related.replayOrReject (h : Related requests other key fresh now s s')
    (hvalid : parseIdempotencyKey (some fresh) = .ok (some fresh)) (i : ι)
    (record : IdempotencyRecord ι CampaignResponse) :
    Related requests other key fresh now (s.replayOrReject env requests i record)
      (s'.replayOrReject env (rekeyed requests other key fresh) i
        (if OtherUse requests other key i then rekeyRecord fresh record else record)) := by
  have hfingerprint : (if OtherUse requests other key i then rekeyRecord fresh record else record).fingerprint =
      record.fingerprint := by split_ifs <;> rfl
  have hresponse : (if OtherUse requests other key i then rekeyRecord fresh record else record).response =
      record.response := by split_ifs <;> rfl
  unfold RouteState.replayOrReject
  rw [hfingerprint, hresponse, payloadOf_rekeyed, keyOf_rekeyed hvalid]
  by_cases hdiffers : record.fingerprint ≠ fingerprintPayload env.sha256 (payloadOf (requests i))
  · rw [if_pos hdiffers, if_pos hdiffers]
    exact h.refused i rfl
  · rw [if_neg hdiffers, if_neg hdiffers]
    apply h.answer
    split_ifs <;> rfl

theorem Related.finish (h : Related requests other key fresh now s s')
    (hvalid : parseIdempotencyKey (some fresh) = .ok (some fresh)) (turn : Turn ι) (draft : Draft) :
    Related requests other key fresh now (s.finish env requests turn draft)
      (s'.finish env (rekeyed requests other key fresh) turn draft) := by
  refine ⟨?_, ?_, fun j => ?_, h.stores⟩
  · simp only [RouteState.finish, h.ledger]
  · simp only [RouteState.finish, h.campaigns, payloadOf_rekeyed]
  · simp only [RouteState.finish, Function.update_apply, keyOf_rekeyed hvalid, h.stages]
    by_cases hj : j = turn.request
    · subst hj
      simp only [↓reduceIte]
      split_ifs <;> rfl
    · simp only [hj, ↓reduceIte]

theorem Related.create {turn : Turn ι} (h : Related requests other key fresh turn.now s s')
    (hvalid : parseIdempotencyKey (some fresh) = .ok (some fresh)) (hfresh : ∀ j, keyOf (requests j) ≠ some fresh)
    (hseparate : keyOf (requests turn.request) = some key →
      ∀ record ∈ s.store.liveAt turn.now (storageKey idempotencyScope key),
        (OtherUse requests other key record.builtBy ↔ OtherUse requests other key turn.request))
    (resources : CampaignResourceRequest) (createdAt : ℕ) (quotaOverride : Bool) :
    Related requests other key fresh turn.now (s.create env requests turn resources createdAt quotaOverride)
      (s'.create env (rekeyed requests other key fresh) turn resources createdAt quotaOverride) := by
  unfold RouteState.create
  dsimp only
  rw [draftFor_rekeyed, payloadOf_rekeyed, keyOf_rekeyed hvalid]
  generalize draftFor requests turn resources createdAt quotaOverride = draft
  cases hkey : keyOf (requests turn.request) with
  | none =>
    have hother : ¬OtherUse requests other key turn.request := by
      intro hother
      rw [hother.2] at hkey
      cases hkey
    rw [if_neg hother]
    exact h.finish hvalid turn draft
  | some k =>
    have hnow : turn.now < (recordOf env requests turn k draft).expiresAt := Nat.lt_add_of_pos_right (by decide)
    have hbuilt : (recordOf env requests turn k draft).scope = idempotencyScope ∧
        (recordOf env requests turn k draft).key = k ∧ (recordOf env requests turn k draft).builtBy = turn.request ∧
        turn.now < (recordOf env requests turn k draft).expiresAt := ⟨rfl, rfl, rfl, hnow⟩
    have hrecord : buildIdempotencyRecord env.sha256 turn.request idempotencyScope
        (if OtherUse requests other key turn.request then fresh else k) (payloadOf (requests turn.request))
        (draft.response.field "id") draft.response turn.now =
        if OtherUse requests other key turn.request then rekeyRecord fresh (recordOf env requests turn k draft)
        else recordOf env requests turn k draft := by split_ifs <;> rfl
    have hchosen : (if OtherUse requests other key turn.request then some fresh else some k) =
        some (if OtherUse requests other key turn.request then fresh else k) := by split_ifs <;> rfl
    obtain ⟨hwinner, hstores⟩ := h.stores.put hfresh hkey (fun heq => hseparate (heq ▸ hkey))
      hbuilt hrecord
    have hstored : Related requests other key fresh turn.now
        { s with store := (s.store.putIfAbsent turn.now (recordOf env requests turn k draft)).2 }
        { s' with store := (s'.store.putIfAbsent turn.now _).2 } := ⟨h.ledger, h.campaigns, h.stages, hstores⟩
    rw [hchosen]
    apply hstored.setStage
    rw [hwinner]
    split_ifs <;> rfl

theorem Related.admission {turn : Turn ι} (h : Related requests other key fresh turn.now s s')
    (hvalid : parseIdempotencyKey (some fresh) = .ok (some fresh)) (hfresh : ∀ j, keyOf (requests j) ≠ some fresh)
    (hseparate : keyOf (requests turn.request) = some key → (reservation env requests s turn).isSome = true →
      ∀ record ∈ s.store.liveAt turn.now (storageKey idempotencyScope key),
        (OtherUse requests other key record.builtBy ↔ OtherUse requests other key turn.request)) :
    Related requests other key fresh turn.now (s.admission env requests turn)
      (s'.admission env (rekeyed requests other key fresh) turn) := by
  unfold RouteState.admission
  unfold reservation at hseparate
  dsimp only
  rw [payloadOf_rekeyed, quotaOverride_rekeyed, h.ledger]
  cases hderived : deriveCampaignRequest (payloadOf (requests turn.request)) with
  | error error => exact h.refused _ rfl
  | ok resources =>
    dsimp only
    cases hreason : parseOverrideReason (requests turn.request).quotaOverride with
    | error error => exact h.refused _ rfl
    | ok reason =>
      rw [hderived, hreason] at hseparate
      dsimp only at hseparate ⊢
      have hrefuse : ∀ reply, rekeyReply fresh reply = reply → Related requests other key fresh turn.now
          (s.refuse turn resources reason reply) (s'.refuse turn resources reason reply) := by
        intro reply hreply
        cases reason with
        | none => exact h.refused _ hreply
        | some reason =>
          apply h.setStage
          split_ifs <;> rfl
      cases hadmission : evaluateCampaignAdmission resources env.limits
        (s.ledger.usage turn.now resources.scope) env.windows turn.now with
      | ok =>
        apply h.create hvalid hfresh
        intro hkey
        exact hseparate hkey (by rw [if_pos hadmission]; rfl)
      | window retryAfterSeconds => exact hrefuse _ rfl
      | quota violation retryAfterSeconds => exact hrefuse _ rfl

theorem Related.receive {turn : Turn ι} (h : Related requests other key fresh turn.now s s')
    (hvalid : parseIdempotencyKey (some fresh) = .ok (some fresh)) (hfresh : ∀ j, keyOf (requests j) ≠ some fresh)
    (hseparate : keyOf (requests turn.request) = some key →
      ∀ record ∈ s.store.liveAt turn.now (storageKey idempotencyScope key),
        (OtherUse requests other key record.builtBy ↔ OtherUse requests other key turn.request)) :
    Related requests other key fresh turn.now (s.receive env requests turn)
      (s'.receive env (rekeyed requests other key fresh) turn) := by
  unfold RouteState.receive
  dsimp only
  rw [parse_rekeyed hvalid, body_rekeyed]
  cases hparsed : parseIdempotencyKey (requests turn.request).idempotencyKey with
  | error error =>
    have hother : ¬OtherUse requests other key turn.request := by
      rintro ⟨-, hkey⟩
      rw [keyOf, hparsed] at hkey
      cases hkey
    rw [if_neg hother]
    exact h.refused _ rfl
  | ok parsed =>
    have hkey : keyOf (requests turn.request) = parsed := by rw [keyOf, hparsed]
    cases hbody : (requests turn.request).body with
    | error error =>
      have hsame : (if OtherUse requests other key turn.request then Except.ok (some fresh) else
          (Except.ok parsed : Except String (Option JsString))) =
          .ok (if OtherUse requests other key turn.request then some fresh else parsed) := by split_ifs <;> rfl
      rw [hsame]
      exact h.refused _ rfl
    | ok body =>
      cases parsed with
      | none =>
        have hother : ¬OtherUse requests other key turn.request := by
          rintro ⟨-, hother⟩
          rw [hkey] at hother
          cases hother
        rw [if_neg hother]
        exact h.admission hvalid hfresh fun hnone => by simp [hkey] at hnone
      | some k =>
        have hsame : (if OtherUse requests other key turn.request then Except.ok (some fresh) else
            (Except.ok (some k) : Except String (Option JsString))) =
            .ok (some (if OtherUse requests other key turn.request then fresh else k)) := by split_ifs <;> rfl
        have hfound := h.stores.lookup hfresh hkey fun heq => hseparate (heq ▸ hkey)
        have hlooked : Related requests other key fresh turn.now
            { s with store := (s.store.get turn.now idempotencyScope k).2 }
            { s' with store := (s'.store.get turn.now idempotencyScope
                (if OtherUse requests other key turn.request then fresh else k)).2 } :=
          ⟨h.ledger, h.campaigns, h.stages, h.stores.get _ _⟩
        rw [hsame]
        apply hlooked.setStage
        rw [InMemoryIdempotencyStore.get, InMemoryIdempotencyStore.live_fst, hfound]
        simp only [InMemoryIdempotencyStore.get, InMemoryIdempotencyStore.live_fst]
        split_ifs <;> rfl

theorem Related.step {turn : Turn ι} (h : Related requests other key fresh turn.now s s')
    (hvalid : parseIdempotencyKey (some fresh) = .ok (some fresh)) (hfresh : ∀ j, keyOf (requests j) ≠ some fresh)
    (hseparate : Separate env requests other key s turn) :
    Related requests other key fresh turn.now (s.step env requests turn)
      (s'.step env (rekeyed requests other key fresh) turn) := by
  unfold Separate consults at hseparate
  unfold RouteState.step
  rw [h.stages]
  cases hstage : s.stages turn.request with
  | received =>
    have hsame : (if OtherUse requests other key turn.request then rekeyStage fresh .received else
        (.received : Stage ι)) = .received := ite_self _
    rw [hstage] at hseparate
    rw [hsame]
    exact h.receive hvalid hfresh fun hkey => hseparate hkey rfl
  | lookingUp existing =>
    cases existing with
    | none =>
      have hsame : (if OtherUse requests other key turn.request then rekeyStage fresh (.lookingUp none) else
          (.lookingUp none : Stage ι)) = .lookingUp none := ite_self _
      rw [hstage] at hseparate
      rw [hsame]
      exact h.admission hvalid hfresh hseparate
    | some record =>
      have hsame : (if OtherUse requests other key turn.request then rekeyStage fresh (.lookingUp (some record)) else
          .lookingUp (some record)) =
          .lookingUp (some (if OtherUse requests other key turn.request then rekeyRecord fresh record else record)) := by
        split_ifs <;> rfl
      rw [hsame]
      exact h.replayOrReject hvalid turn.request record
  | authorising resources checkedAt =>
    have hsame : (if OtherUse requests other key turn.request then rekeyStage fresh (.authorising resources checkedAt)
        else (.authorising resources checkedAt : Stage ι)) = .authorising resources checkedAt := ite_self _
    rw [hstage] at hseparate
    rw [hsame]
    dsimp only
    split_ifs with hmaintainer
    · exact h.create hvalid hfresh (fun hkey => hseparate hkey hmaintainer) resources checkedAt true
    · exact h.refused _ rfl
  | storing draft winner =>
    have hsame : (if OtherUse requests other key turn.request then rekeyStage fresh (.storing draft winner) else
        .storing draft winner) =
        .storing draft (if OtherUse requests other key turn.request then rekeyRecord fresh winner else winner) := by
      split_ifs <;> rfl
    have hbuilt : (if OtherUse requests other key turn.request then rekeyRecord fresh winner else winner).builtBy =
        winner.builtBy := by split_ifs <;> rfl
    rw [hsame]
    dsimp only
    rw [hbuilt]
    by_cases hforeign : winner.builtBy ≠ turn.request
    · rw [if_pos hforeign, if_pos hforeign]
      exact h.replayOrReject hvalid turn.request winner
    · rw [if_neg hforeign, if_neg hforeign]
      exact h.finish hvalid turn draft
  | answered reply =>
    have hsame : (if OtherUse requests other key turn.request then rekeyStage fresh (.answered reply) else
        (.answered reply : Stage ι)) =
        .answered (if OtherUse requests other key turn.request then rekeyReply fresh reply else reply) := by
      split_ifs <;> rfl
    rw [hsame]
    exact h

end Turns

omit [DecidableEq ι] in
theorem Related.later {now later : ℕ} {s s' : RouteState ι} (h : Related requests other key fresh now s s')
    (hle : now ≤ later) : Related requests other key fresh later s s' := { h with stores := h.stores.later hle }

omit [DecidableEq ι] in
theorem Related.start (now : ℕ) : Related requests other key fresh now ({} : RouteState ι) {} where
  ledger := rfl
  campaigns := rfl
  stages _ := (ite_self _).symm
  stores := ⟨rfl, rfl, fun _ _ _ => rfl⟩

theorem replies_isolated (env : Deployment) (requests : ι → CampaignRequest) (other : String) (key fresh : JsString)
    (hvalid : parseIdempotencyKey (some fresh) = .ok (some fresh)) (hfresh : ∀ i, keyOf (requests i) ≠ some fresh)
    (turns : List (Turn ι)) (hclock : turns.Pairwise fun turn later => turn.now ≤ later.now)
    (hturns : EachStep (step env requests) (Separate env requests other key) {} turns) (i : ι)
    (hi : (requests i).principal ≠ other) :
    (run (step env (rekeyed requests other key fresh)) {} turns).replyOf i =
      (run (step env requests) {} turns).replyOf i := by
  suffices hrun : ∀ (s s' : RouteState ι) (now : ℕ), (∀ turn ∈ turns, now ≤ turn.now) →
      Related requests other key fresh now s s' →
      EachStep (step env requests) (Separate env requests other key) s turns →
      ∃ later, Related requests other key fresh later (run (step env requests) s turns)
        (run (step env (rekeyed requests other key fresh)) s' turns) by
    obtain ⟨later, hrelated⟩ := hrun {} {} 0 (fun _ _ => Nat.zero_le _) (Related.start 0) hturns
    have hother : ¬OtherUse requests other key i := fun hother => hi hother.1
    have hstage := hrelated.stages i
    rw [if_neg hother] at hstage
    rw [replyOf, replyOf, hstage]
  clear hturns
  induction turns with
  | nil => exact fun s s' now _ h _ => ⟨now, h⟩
  | cons turn turns ih =>
    intro s s' now hnow h hturns
    have hstep := (h.later (hnow turn List.mem_cons_self)).step hvalid hfresh hturns.1
    exact ih hclock.of_cons _ _ turn.now (fun later hlater => List.rel_of_pairwise_cons hclock hlater) hstep hturns.2

section Samples

instance Separate.decidable (env : Deployment) (requests : ι → CampaignRequest) (other : String) (key : JsString)
    (s : RouteState ι) (turn : Turn ι) : Decidable (Separate env requests other key s turn) :=
  inferInstanceAs (Decidable (_ → _ → ∀ record ∈ s.store.liveAt turn.now (storageKey idempotencyScope key), _))

def plainDeployment : Deployment := { sha256 := id, dateParse := fun _ => none }

def sharedKey (i : Bool) : CampaignRequest :=
  { principal := if i = false then "alice" else "bob", idempotencyKey := some [0x6B], body := .ok (.object []) }

def callAt (request : Bool) (now : ℕ) : Turn Bool := ⟨request, now, [], false⟩

def spacedCalls : List (Turn Bool) :=
  [callAt true 0, callAt true 1, callAt true 2, callAt false 86400001, callAt false 86400002,
    callAt false 86400003]

theorem spaced_calls_isolated :
    (run (step plainDeployment (rekeyed sharedKey "bob" [0x6B] [0x6E])) {} spacedCalls).replyOf false =
      (run (step plainDeployment sharedKey) {} spacedCalls).replyOf false :=
  replies_isolated plainDeployment sharedKey "bob" [0x6B] [0x6E] rfl (by decide +kernel) spacedCalls (by decide)
    (by decide +kernel) false (by decide)

def closeCalls : List (Turn Bool) :=
  [callAt true 0, callAt true 1, callAt true 2, callAt false 3, callAt false 4, callAt false 5]

def isReplay : Reply → Bool
  | .replayed _ _ => true
  | _ => false

theorem replay_crosses_principals :
    ¬∀ (env : Deployment) (requests : Bool → CampaignRequest) (other : String) (key fresh : JsString),
      parseIdempotencyKey (some fresh) = .ok (some fresh) → (∀ i, keyOf (requests i) ≠ some fresh) →
        ∀ turns : List (Turn Bool), (turns.Pairwise fun turn later => turn.now ≤ later.now) →
          ∀ i, (requests i).principal ≠ other →
            (run (step env (rekeyed requests other key fresh)) {} turns).replyOf i =
              (run (step env requests) {} turns).replyOf i := by
  -- one caller is handed the campaign of the other
  intro h
  have hsame := h plainDeployment sharedKey "bob" [0x6B] [0x6E] rfl (by decide +kernel) closeCalls (by decide) false
    (by decide)
  have hreplay := congrArg (Option.map isReplay) hsame
  exact absurd hreplay (by decide +kernel)

end Samples

end RouteState

end CrashLab.Campaigns
