import CrashLab.Histories
import CrashLab.JsStrings

namespace CrashLab.ApiTokens

open JsStrings

inductive ApiTokenScope where
  | webhookRead
  | webhookWrite
  | runsRead
  | runsWrite
  | settingsRead
  | settingsWrite
  | ciWrite
  | all
deriving DecidableEq

/-- The environment's lifetimes, in milliseconds, and the digest of the platform. -/
structure Settings where
  defaultTokenTtlMs : ℤ
  tokenRotationGraceMs : ℤ
  hashApiToken : JsString → JsString

def lastUsedThrottleMs : ℤ := 60000

/-- Instants are milliseconds; an expiry that is `none` is a text that is no date, and never comes. -/
structure ApiTokenRecord where
  id : JsString
  name : JsString
  sha256Hash : JsString
  scopes : List ApiTokenScope
  createdAt : ℤ
  expiresAt : Option ℤ
  lastUsedAt : Option ℤ
  revokedAt : Option ℤ
  rotatedAt : Option ℤ
deriving DecidableEq

structure ApiTokenPublic where
  id : JsString
  name : JsString
  prefixMasked : JsString
  scopes : List ApiTokenScope
  createdAt : ℤ
  expiresAt : Option ℤ
  lastUsedAt : Option ℤ
  revokedAt : Option ℤ
  rotatedAt : Option ℤ
deriving DecidableEq

inductive TokenStatus where
  | valid
  | expired
  | revoked
deriving DecidableEq

/-- `none` is the status `invalid`, which carries no token. -/
abbrev ResolveTokenResult := Option (TokenStatus × ApiTokenRecord)

structure RotateTokenResult where
  secret : JsString
  token : ApiTokenPublic
  previousTokenId : JsString
deriving DecidableEq

structure CreateParams where
  name : JsString
  scopes : List ApiTokenScope
  expiresAt : Option (Option ℤ) := none
deriving DecidableEq

structure Minted where
  secretBytes : JsString
  idBytes : JsString
deriving DecidableEq

section Store

variable (settings : Settings) (tokensStore : List ApiTokenRecord) (nowMs : ℤ)

def timingSafeHashEqual (a b : JsString) : Bool :=
  let maxLen := max a.length b.length
  (a ++ List.replicate (maxLen - a.length) 0 == b ++ List.replicate (maxLen - b.length) 0) && a.length == b.length

def maskTokenSecret (secret : JsString) : JsString :=
  if secret.length ≤ 12 then secret.take 4 ++ ofString "..."
  else secret.take 8 ++ ofString "..." ++ secret.drop (secret.length - 4)

def mintedSecret (minted : Minted) : JsString := ofString "scl_live_" ++ minted.secretBytes

def newRecord (params : CreateParams) (minted : Minted) : ApiTokenRecord where
  id := ofString "tok_" ++ minted.idBytes
  name := trim params.name
  sha256Hash := settings.hashApiToken (mintedSecret minted)
  scopes := params.scopes
  createdAt := nowMs
  expiresAt := params.expiresAt.getD (some (nowMs + settings.defaultTokenTtlMs))
  lastUsedAt := none
  revokedAt := none
  rotatedAt := none

def publicRecord (record : ApiTokenRecord) (prefixMasked : JsString) : ApiTokenPublic where
  id := record.id
  name := record.name
  prefixMasked := prefixMasked
  scopes := record.scopes
  createdAt := record.createdAt
  expiresAt := record.expiresAt
  lastUsedAt := record.lastUsedAt
  revokedAt := record.revokedAt
  rotatedAt := record.rotatedAt

def createApiToken (params : CreateParams) (minted : Minted) :
    (JsString × ApiTokenPublic) × List ApiTokenRecord :=
  let record := newRecord settings nowMs params minted
  ((mintedSecret minted, publicRecord record (maskTokenSecret (mintedSecret minted))), tokensStore ++ [record])

/-- Where `find` stops looking for an id; behind the list when it finds none. -/
def indexOfId (id : JsString) : ℕ := tokensStore.findIdx (·.id = id)

def rotateApiToken (id : JsString) (minted : Minted) : Option RotateTokenResult × List ApiTokenRecord :=
  match tokensStore[indexOfId tokensStore id]? with
  | none => (none, tokensStore)
  | some existing =>
    let ((secret, token), created) :=
      createApiToken settings tokensStore nowMs { name := existing.name, scopes := existing.scopes } minted
    (some ⟨secret, token, existing.id⟩,
      created.modify (indexOfId tokensStore id) fun record => { record with rotatedAt := some nowMs })

def ApiTokenRecord.revoke (record : ApiTokenRecord) : ApiTokenRecord :=
  if record.revokedAt = none then { record with revokedAt := some nowMs } else record

def revokeApiToken (id : JsString) : Bool × List ApiTokenRecord :=
  match tokensStore[indexOfId tokensStore id]? with
  | none => (false, tokensStore)
  | some _ => (true, tokensStore.modify (indexOfId tokensStore id) (ApiTokenRecord.revoke nowMs))

def indexOfSecret (secret : JsString) : ℕ :=
  tokensStore.findIdx fun record => timingSafeHashEqual record.sha256Hash (settings.hashApiToken secret)

def ApiTokenRecord.status (record : ApiTokenRecord) : TokenStatus :=
  if record.revokedAt.isSome then .revoked
  else if record.rotatedAt.any fun rotatedAt => nowMs > rotatedAt + settings.tokenRotationGraceMs then .revoked
  else if record.expiresAt.any fun expiresMs => expiresMs ≤ nowMs then .expired
  else .valid

def ApiTokenRecord.use (record : ApiTokenRecord) : ApiTokenRecord :=
  if nowMs - record.lastUsedAt.getD 0 ≥ lastUsedThrottleMs then { record with lastUsedAt := some nowMs } else record

def resolveApiToken (secret : JsString) : ResolveTokenResult × List ApiTokenRecord :=
  match tokensStore[indexOfSecret settings tokensStore secret]? with
  | none => (none, tokensStore)
  | some record =>
    match record.status settings nowMs with
    | .valid => (some (.valid, record.use nowMs),
        tokensStore.modify (indexOfSecret settings tokensStore secret) (ApiTokenRecord.use nowMs))
    | status => (some (status, record), tokensStore)

end Store

section Runs

inductive Call where
  | createApiToken (params : CreateParams) (minted : Minted)
  | rotateApiToken (id : JsString) (minted : Minted)
  | revokeApiToken (id : JsString)
  | resolveApiToken (secret : JsString)
deriving DecidableEq

structure TimedCall where
  nowMs : ℤ
  call : Call
deriving DecidableEq

structure TokenState where
  tokensStore : List ApiTokenRecord
  clock : ℤ

def TokenState.step (settings : Settings) (s : TokenState) (c : TimedCall) : TokenState where
  tokensStore :=
    match c.call with
    | .createApiToken params minted => (createApiToken settings s.tokensStore c.nowMs params minted).2
    | .rotateApiToken id minted => (rotateApiToken settings s.tokensStore c.nowMs id minted).2
    | .revokeApiToken id => (revokeApiToken s.tokensStore c.nowMs id).2
    | .resolveApiToken secret => (resolveApiToken settings s.tokensStore c.nowMs secret).2
  clock := c.nowMs

end Runs

end CrashLab.ApiTokens
