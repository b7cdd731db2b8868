import CrashLab.ApiTokens

namespace CrashLab.ApiTokens

open JsStrings Histories

variable {settings : Settings}

section Records

structure Keeps (before after : ApiTokenRecord) : Prop where
  id : after.id = before.id
  sha256Hash : after.sha256Hash = before.sha256Hash
  expiresAt : after.expiresAt = before.expiresAt
  revokedAt : before.revokedAt.isSome → after.revokedAt.isSome
  rotatedAt : ∀ t ∈ before.rotatedAt, after.rotatedAt = some t

theorem Keeps.refl (record : ApiTokenRecord) : Keeps record record := ⟨rfl, rfl, rfl, fun h => h, fun _ h => h⟩

theorem Keeps.trans {a b c : ApiTokenRecord} (hab : Keeps a b) (hbc : Keeps b c) : Keeps a c where
  id := hbc.id.trans hab.id
  sha256Hash := hbc.sha256Hash.trans hab.sha256Hash
  expiresAt := hbc.expiresAt.trans hab.expiresAt
  revokedAt := fun h => hbc.revokedAt (hab.revokedAt h)
  rotatedAt := fun t h => hbc.rotatedAt t (hab.rotatedAt t h)

theorem Keeps.revoke (record : ApiTokenRecord) (nowMs : ℤ) : Keeps record (record.revoke nowMs) := by
  unfold ApiTokenRecord.revoke
  split_ifs
  · exact ⟨rfl, rfl, rfl, fun _ => rfl, fun _ h => h⟩
  · exact .refl record

theorem Keeps.use (record : ApiTokenRecord) (nowMs : ℤ) : Keeps record (record.use nowMs) := by
  unfold ApiTokenRecord.use
  split_ifs
  · exact ⟨rfl, rfl, rfl, fun h => h, fun _ h => h⟩
  · exact .refl record

theorem Keeps.rotate {record : ApiTokenRecord} (fresh : record.rotatedAt = none) (nowMs : ℤ) :
    Keeps record { record with rotatedAt := some nowMs } :=
  ⟨rfl, rfl, rfl, fun h => h, fun t h => by rw [fresh] at h; cases h⟩

theorem status_eq_valid {record : ApiTokenRecord} {nowMs : ℤ} :
    record.status settings nowMs = .valid ↔ record.revokedAt = none ∧
      (∀ t ∈ record.rotatedAt, nowMs ≤ t + settings.tokenRotationGraceMs) ∧ ∀ t ∈ record.expiresAt, nowMs < t := by
  unfold ApiTokenRecord.status
  cases record.revokedAt <;> cases record.rotatedAt <;> cases record.expiresAt <;> simp [ite_eq_iff]

theorem Keeps.ended {before after : ApiTokenRecord} (keeps : Keeps before after) {nowMs nowMs' : ℤ}
    (hclock : nowMs ≤ nowMs') (ended : before.status settings nowMs ≠ .valid) :
    after.status settings nowMs' ≠ .valid := by
  intro hvalid
  obtain ⟨hrevoked, hrotated, hexpires⟩ := status_eq_valid.mp hvalid
  apply ended
  apply status_eq_valid.mpr
  refine ⟨?_, ?_, ?_⟩
  · by_contra hsome
    have hafter := keeps.revokedAt (Option.isSome_iff_ne_none.mpr hsome)
    rw [hrevoked] at hafter
    cases hafter
  · intro t ht
    exact hclock.trans (hrotated t (keeps.rotatedAt t ht))
  · intro t ht
    exact hclock.trans_lt (hexpires t (keeps.expiresAt ▸ ht))

end Records

section Stores

def Extends (before after : List ApiTokenRecord) : Prop :=
  ∀ i : ℕ, ∀ record ∈ before[i]?, ∃ record' ∈ after[i]?, Keeps record record'

theorem Extends.refl (tokensStore : List ApiTokenRecord) : Extends tokensStore tokensStore :=
  fun _ record h => ⟨record, h, .refl record⟩

theorem Extends.trans {a b c : List ApiTokenRecord} (hab : Extends a b) (hbc : Extends b c) : Extends a c := by
  intro i record h
  obtain ⟨record', h', hkeeps⟩ := hab i record h
  obtain ⟨record'', h'', hkeeps'⟩ := hbc i record' h'
  exact ⟨record'', h'', hkeeps.trans hkeeps'⟩

theorem extends_append (tokensStore more : List ApiTokenRecord) : Extends tokensStore (tokensStore ++ more) := by
  intro i record h
  refine ⟨record, ?_, .refl record⟩
  obtain ⟨hi, -⟩ := List.getElem?_eq_some_iff.mp h
  rw [Option.mem_def, List.getElem?_append_left hi]
  exact h

theorem extends_modify {tokensStore : List ApiTokenRecord} {index : ℕ} {f : ApiTokenRecord → ApiTokenRecord}
    (keeps : ∀ record ∈ tokensStore[index]?, Keeps record (f record)) :
    Extends tokensStore (tokensStore.modify index f) := by
  intro i record h
  rw [List.getElem?_modify, Option.mem_def.mp h]
  by_cases hi : index = i
  · refine ⟨f record, by simp [hi], keeps record (hi ▸ h)⟩
  · exact ⟨record, by simp [hi], .refl record⟩

theorem Extends.findIdx {before after : List ApiTokenRecord} (h : Extends before after) {p : ApiTokenRecord → Bool}
    (kept : ∀ record record', Keeps record record' → p record' = p record) {record : ApiTokenRecord}
    (hfound : before[before.findIdx p]? = some record) : after.findIdx p = before.findIdx p := by
  obtain ⟨hlt, -⟩ := List.getElem?_eq_some_iff.mp hfound
  have hat : ∀ j (hj : j < before.length), ∃ hj' : j < after.length, p after[j] = p before[j] := by
    intro j hj
    obtain ⟨record', hrecord', hkeeps⟩ := h j before[j] (List.getElem?_eq_getElem hj)
    obtain ⟨hj', heq⟩ := List.getElem?_eq_some_iff.mp hrecord'
    exact ⟨hj', heq ▸ kept _ _ hkeeps⟩
  obtain ⟨hlt', hthere⟩ := hat _ hlt
  apply (List.findIdx_eq hlt').mpr
  refine ⟨hthere.trans (List.findIdx_getElem (w := hlt)), ?_⟩
  intro j hj
  obtain ⟨hj', hsame⟩ := hat j (hj.trans hlt)
  exact hsame.trans (by simpa using List.not_of_lt_findIdx hj)

end Stores

section Statement

variable (settings) (start : TokenState) (calls : List TimedCall)

def resolvedStatus (tokensStore : List ApiTokenRecord) (nowMs : ℤ) (secret : JsString) : Option TokenStatus :=
  (resolveApiToken settings tokensStore nowMs secret).1.map Prod.fst

def storeAfter (calls : List TimedCall) : List ApiTokenRecord :=
  (run (TokenState.step settings) start calls).tokensStore

/-- A token is known by its place in the store, where both its id and its secret lead. -/
structure Lifecycle : Prop where
  absorbing : ∀ before between after : List TimedCall, ∀ (secret : JsString) (nowMs nowMs' : ℤ),
    calls = before ++ ⟨nowMs, .resolveApiToken secret⟩ :: (between ++ ⟨nowMs', .resolveApiToken secret⟩ :: after) →
    resolvedStatus settings (storeAfter settings start before) nowMs secret ∈ [some .revoked, some .expired] →
    resolvedStatus settings (storeAfter settings start (before ++ ⟨nowMs, .resolveApiToken secret⟩ :: between))
      nowMs' secret ≠ some .valid
  grace : ∀ before between after : List TimedCall, ∀ (id secret : JsString) (minted : Minted) (nowMs nowMs' : ℤ),
    calls = before ++ ⟨nowMs, .rotateApiToken id minted⟩ :: (between ++ ⟨nowMs', .resolveApiToken secret⟩ :: after) →
    ∀ token ∈ (storeAfter settings start before)[indexOfId (storeAfter settings start before) id]?,
      token.rotatedAt = none →
      indexOfSecret settings (storeAfter settings start (before ++ ⟨nowMs, .rotateApiToken id minted⟩ :: between))
        secret = indexOfId (storeAfter settings start before) id →
      nowMs + settings.tokenRotationGraceMs < nowMs' →
      resolvedStatus settings (storeAfter settings start (before ++ ⟨nowMs, .rotateApiToken id minted⟩ :: between))
        nowMs' secret ≠ some .valid
  successor : ∀ before after : List TimedCall, ∀ (id : JsString) (minted : Minted) (nowMs : ℤ),
    calls = before ++ ⟨nowMs, .rotateApiToken id minted⟩ :: after →
    (rotateApiToken settings (storeAfter settings start before) nowMs id minted).1.isSome →
    ∀ token ∈ (storeAfter settings start before)[indexOfId (storeAfter settings start before) id]?,
      token.status settings nowMs ≠ .revoked

def TokenState.Orderly (s : TokenState) (c : TimedCall) : Prop := s.clock ≤ c.nowMs

def TokenState.RotatesFresh (s : TokenState) (c : TimedCall) : Prop :=
  match c.call with
  | .rotateApiToken id _ =>
    ∀ token ∈ s.tokensStore[indexOfId s.tokensStore id]?, token.revokedAt = none ∧ token.rotatedAt = none
  | _ => True

instance TokenState.Orderly.decidable (s : TokenState) (c : TimedCall) : Decidable (s.Orderly c) :=
  inferInstanceAs (Decidable (s.clock ≤ c.nowMs))

instance TokenState.RotatesFresh.decidable (s : TokenState) : ∀ c, Decidable (s.RotatesFresh c)
  | ⟨_, .rotateApiToken id _⟩ => inferInstanceAs (Decidable
    (∀ token ∈ s.tokensStore[indexOfId s.tokensStore id]?, token.revokedAt = none ∧ token.rotatedAt = none))
  | ⟨_, .createApiToken _ _⟩ | ⟨_, .revokeApiToken _⟩ | ⟨_, .resolveApiToken _⟩ => isTrue trivial

end Statement

section Runs

theorem extends_step {s : TokenState} {c : TimedCall} (fresh : s.RotatesFresh c) :
    Extends s.tokensStore (s.step settings c).tokensStore := by
  obtain ⟨nowMs, call⟩ := c
  cases call with
  | createApiToken params minted => exact extends_append _ _
  | rotateApiToken id minted =>
    change Extends s.tokensStore (rotateApiToken settings s.tokensStore nowMs id minted).2
    unfold rotateApiToken
    cases hfound : s.tokensStore[indexOfId s.tokensStore id]? with
    | none => exact .refl _
    | some token =>
      obtain ⟨hlt, -⟩ := List.getElem?_eq_some_iff.mp hfound
      refine (extends_append s.tokensStore _).trans (extends_modify ?_)
      intro record hrecord
      rw [Option.mem_def, List.getElem?_append_left hlt] at hrecord
      exact .rotate (fresh record hrecord).2 nowMs
  | revokeApiToken id =>
    change Extends s.tokensStore (revokeApiToken s.tokensStore nowMs id).2
    unfold revokeApiToken
    cases s.tokensStore[indexOfId s.tokensStore id]? with
    | none => exact .refl _
    | some token => exact extends_modify fun record _ => .revoke record nowMs
  | resolveApiToken secret =>
    change Extends s.tokensStore (resolveApiToken settings s.tokensStore nowMs secret).2
    unfold resolveApiToken
    cases s.tokensStore[indexOfSecret settings s.tokensStore secret]? with
    | none => exact .refl _
    | some token =>
      dsimp only
      cases token.status settings nowMs with
      | valid => exact extends_modify fun record _ => .use record nowMs
      | expired => exact .refl _
      | revoked => exact .refl _

theorem extends_run {s : TokenState} {calls : List TimedCall}
    (h : EachStep (TokenState.step settings) (fun s c => s.Orderly c ∧ s.RotatesFresh c) s calls) :
    Extends s.tokensStore (run (TokenState.step settings) s calls).tokensStore ∧
      s.clock ≤ (run (TokenState.step settings) s calls).clock := by
  refine EachStep.invariant (I := fun t => Extends s.tokensStore t.tokensStore ∧ s.clock ≤ t.clock) ?_
    ⟨.refl _, le_refl _⟩ h
  rintro t c ⟨hextends, hclock⟩ ⟨horderly, hfresh⟩
  exact ⟨hextends.trans (extends_step hfresh), hclock.trans horderly⟩

theorem resolvedStatus_eq (tokensStore : List ApiTokenRecord) (nowMs : ℤ) (secret : JsString) :
    resolvedStatus settings tokensStore nowMs secret =
      (tokensStore[indexOfSecret settings tokensStore secret]?).map (ApiTokenRecord.status settings nowMs) := by
  unfold resolvedStatus resolveApiToken
  cases tokensStore[indexOfSecret settings tokensStore secret]? with
  | none => rfl
  | some record =>
    dsimp only
    cases hstatus : record.status settings nowMs <;> simp [hstatus]

theorem Extends.indexOfSecret {before after : List ApiTokenRecord} (h : Extends before after) {secret : JsString}
    {record : ApiTokenRecord} (hfound : before[indexOfSecret settings before secret]? = some record) :
    ApiTokens.indexOfSecret settings after secret = ApiTokens.indexOfSecret settings before secret :=
  h.findIdx (fun _ _ hkeeps => by rw [hkeeps.sha256Hash]) hfound

theorem extends_between {start : TokenState} {before between after : List TimedCall} {c d : TimedCall}
    (h : EachStep (TokenState.step settings) (fun s c => s.Orderly c ∧ s.RotatesFresh c) start
      (before ++ c :: (between ++ d :: after))) :
    Extends (storeAfter settings start before) (storeAfter settings start (before ++ [c])) ∧
      Extends (storeAfter settings start (before ++ [c])) (storeAfter settings start (before ++ c :: between)) ∧
      c.nowMs ≤ d.nowMs := by
  obtain ⟨-, ⟨-, hfresh⟩, hrest⟩ := (eachStep_append start before _).mp h
  obtain ⟨hbetween, ⟨horderly, -⟩, -⟩ := (eachStep_append _ between _).mp hrest
  obtain ⟨hextends, hclock⟩ := extends_run hbetween
  have hmiddle : run (TokenState.step settings) start (before ++ [c]) =
      (run (TokenState.step settings) start before).step settings c := by rw [run_append, run_cons, run_nil]
  have hlast : run (TokenState.step settings) start (before ++ c :: between) =
      run (TokenState.step settings) ((run (TokenState.step settings) start before).step settings c) between := by
    rw [run_append, run_cons]
  unfold storeAfter
  rw [hmiddle, hlast]
  exact ⟨extends_step hfresh, hextends, hclock.trans horderly⟩

theorem rotatedAt_after {s : TokenState} {id : JsString} {minted : Minted} {nowMs : ℤ} {token : ApiTokenRecord}
    (htoken : s.tokensStore[indexOfId s.tokensStore id]? = some token) :
    ∃ rotated, (s.step settings ⟨nowMs, .rotateApiToken id minted⟩).tokensStore[indexOfId s.tokensStore id]? =
      some rotated ∧ rotated.rotatedAt = some nowMs := by
  obtain ⟨hlt, -⟩ := List.getElem?_eq_some_iff.mp htoken
  refine ⟨{ token with rotatedAt := some nowMs }, ?_, rfl⟩
  change (rotateApiToken settings s.tokensStore nowMs id minted).2[indexOfId s.tokensStore id]? = _
  unfold rotateApiToken createApiToken
  rw [htoken]
  dsimp only
  rw [List.getElem?_modify_eq, List.getElem?_append_left hlt, htoken]
  rfl

theorem token_lifecycle {start : TokenState} {calls : List TimedCall}
    (clock : EachStep (TokenState.step settings) TokenState.Orderly start calls)
    (fresh : EachStep (TokenState.step settings) TokenState.RotatesFresh start calls) :
    Lifecycle settings start calls := by
  have hboth := (eachStep_and start calls).mpr ⟨clock, fresh⟩
  constructor
  · intro before between after secret nowMs nowMs' hcalls hended hvalid
    subst hcalls
    obtain ⟨hstep, hextends, hclock⟩ := extends_between hboth
    rw [resolvedStatus_eq] at hended hvalid
    cases htoken : (storeAfter settings start before)[indexOfSecret settings (storeAfter settings start before)
        secret]? with
    | none => simp [htoken] at hended
    | some token =>
      have hstatus : token.status settings nowMs ≠ .valid := by
        intro hstatus
        simp [htoken, hstatus] at hended
      obtain ⟨token', htoken', hkeeps⟩ := (hstep.trans hextends) _ token htoken
      rw [(hstep.trans hextends).indexOfSecret htoken, Option.mem_def.mp htoken', Option.map_some,
        Option.some.injEq] at hvalid
      exact hkeeps.ended hclock hstatus hvalid
  · intro before between after id secret minted nowMs nowMs' hcalls token htoken _ hplace hlate hvalid
    subst hcalls
    obtain ⟨-, hextends, -⟩ := extends_between hboth
    obtain ⟨rotated, hrotated, hat⟩ := @rotatedAt_after settings (run (TokenState.step settings) start before) id
      minted nowMs token htoken
    have hafter : (storeAfter settings start (before ++ [⟨nowMs, .rotateApiToken id minted⟩]))[indexOfId
        (storeAfter settings start before) id]? = some rotated := by
      rw [storeAfter, run_append, run_cons, run_nil]
      exact hrotated
    obtain ⟨token', htoken', hkeeps⟩ := hextends _ rotated hafter
    rw [resolvedStatus_eq, hplace, Option.mem_def.mp htoken', Option.map_some, Option.some.injEq] at hvalid
    have hgrace := (status_eq_valid.mp hvalid).2.1 nowMs (hkeeps.rotatedAt nowMs hat)
    omega
  · intro before after id minted nowMs hcalls _ token htoken hrevoked
    subst hcalls
    obtain ⟨-, ⟨-, hrotate⟩, -⟩ := (eachStep_append start before _).mp hboth
    obtain ⟨hrevokedAt, hrotatedAt⟩ := hrotate token htoken
    unfold ApiTokenRecord.status at hrevoked
    rw [hrevokedAt, hrotatedAt] at hrevoked
    split_ifs at hrevoked <;> simp_all

end Runs

section Sample

def sampleSettings : Settings where
  defaultTokenTtlMs := 90 * 24 * 60 * 60 * 1000
  tokenRotationGraceMs := 24 * 60 * 60 * 1000
  hashApiToken := id

def noTokens : TokenState := ⟨[], 0⟩

def firstMinted : Minted := ⟨ofString "a1", ofString "01"⟩

def createFirst : TimedCall := ⟨0, .createApiToken { name := ofString "ci", scopes := [.ciWrite] } firstMinted⟩

def rotateFirst (nowMs : ℤ) (bytes : String) : TimedCall :=
  ⟨nowMs, .rotateApiToken (ofString "tok_01") ⟨ofString bytes, ofString bytes⟩⟩

def resolveFirst (nowMs : ℤ) : TimedCall := ⟨nowMs, .resolveApiToken (mintedSecret firstMinted)⟩

theorem single_rotation_lifecycle : Lifecycle sampleSettings noTokens
    [createFirst, resolveFirst 0, rotateFirst 10 "b2", resolveFirst 20, resolveFirst 86400011, resolveFirst 86400012] :=
  token_lifecycle (by decide +kernel) (by decide +kernel)

theorem second_rotation_revives :
    EachStep (TokenState.step sampleSettings) TokenState.Orderly noTokens
        [createFirst, rotateFirst 0 "b2", resolveFirst 86400001, rotateFirst 86400001 "c3", resolveFirst 86400001] ∧
      ¬ Lifecycle sampleSettings noTokens
        [createFirst, rotateFirst 0 "b2", resolveFirst 86400001, rotateFirst 86400001 "c3", resolveFirst 86400001] := by
  refine ⟨by decide +kernel, ?_⟩
  intro lifecycle
  apply lifecycle.absorbing [createFirst, rotateFirst 0 "b2"] [rotateFirst 86400001 "c3"] []
    (mintedSecret firstMinted) 86400001 86400001 rfl
  · decide +kernel
  · decide +kernel

end Sample

end CrashLab.ApiTokens
