import CrashLab.AuditLog
import CrashLab.KeyedLists

namespace CrashLab.Idempotency

open JsStrings JsonTexts SignatureHash Digest

section Keys

def idempotencyKeyHeader : String := "Idempotency-Key"

def idempotencyKeyMaxLength : ℕ := 255

def isVisibleAscii (u : UInt16) : Bool := 0x21 ≤ u.toNat && u.toNat ≤ 0x7E

def parseIdempotencyKey : Option JsString → Except String (Option JsString)
  | none => .ok none
  | some raw =>
    let key := trim raw
    if key.length = 0 ∨ key.length > idempotencyKeyMaxLength ∨ key.all isVisibleAscii = false then
      .error (idempotencyKeyHeader ++ " must be 1-" ++ toString idempotencyKeyMaxLength ++ " visible ASCII characters.")
    else .ok (some key)

end Keys

section Fingerprints

def indicesFirst (members : List (JsString × Json)) : List (JsString × Json) :=
  Sorting.sortByKey (fun member => (Audit.arrayIndex member.1).getD 0)
      (members.filter fun member => (Audit.arrayIndex member.1).isSome) ++
    members.filter fun member => (Audit.arrayIndex member.1).isNone

def setMember (members : List (JsString × Json)) (member : JsString × Json) : List (JsString × Json) :=
  if members.any (·.1 = member.1) then KeyedLists.replace Prod.fst member members else members ++ [member]

def fromEntries (members : List (JsString × Json)) : List (JsString × Json) :=
  indicesFirst (members.foldl setMember [])

mutual

def canonicalize : Json → Json
  | .array items => .array (canonicalizeItems items)
  | .object members =>
    .object (fromEntries (Sorting.sortByKey (fun member => sortKey member.1)
      (fromEntries (canonicalizeMembers members))))
  | value => value

def canonicalizeItems : List Json → List Json
  | [] => []
  | item :: items => canonicalize item :: canonicalizeItems items

def canonicalizeMembers : List (JsString × Json) → List (JsString × Json)
  | [] => []
  | (key, value) :: members => (key, canonicalize value) :: canonicalizeMembers members

end

/-- `node:crypto` is outside the repository: SHA-256 is a parameter. -/
def fingerprintPayload (sha256 : List UInt8 → List UInt8) (payload : Json) : String :=
  sha256Hex sha256 (asBytes (String.ofList (stringify (canonicalize payload))))

end Fingerprints

section Equality

mutual

def WellKeyed : Json → Prop
  | .array items => WellKeyedItems items
  | .object members => KeyedLists.UniqueKeys Prod.fst members ∧ WellKeyedMembers members
  | _ => True

def WellKeyedItems : List Json → Prop
  | [] => True
  | item :: items => WellKeyed item ∧ WellKeyedItems items

def WellKeyedMembers : List (JsString × Json) → Prop
  | [] => True
  | (_, value) :: members => WellKeyed value ∧ WellKeyedMembers members

end

mutual

def Same : Json → Json → Prop
  | .array items, .array items' => SameItems items items'
  | .object members, .object members' => members.length = members'.length ∧ SameMembers members members'
  | value, value' => value = value'

def SameItems : List Json → List Json → Prop
  | [], [] => True
  | item :: items, item' :: items' => Same item item' ∧ SameItems items items'
  | _, _ => False

def SameMembers : List (JsString × Json) → List (JsString × Json) → Prop
  | [], _ => True
  | (key, value) :: members, members' =>
    (∃ value', (key, value') ∈ members' ∧ Same value value') ∧ SameMembers members members'

end

variable {members members' : List (JsString × Json)}

theorem indicesFirst_perm (members : List (JsString × Json)) : (indicesFirst members).Perm members := by
  unfold indicesFirst
  refine ((Sorting.sortByKey_perm _ _).append_right _).trans ?_
  have hsplit : (fun member : JsString × Json => (Audit.arrayIndex member.1).isNone) =
      fun member => !(Audit.arrayIndex member.1).isSome := by
    funext member
    exact (Option.not_isSome _).symm
  rw [hsplit]
  exact List.filter_append_perm _ _

theorem foldl_setMember (hunique : KeyedLists.UniqueKeys Prod.fst (members ++ members')) :
    members'.foldl setMember members = members ++ members' := by
  induction members' generalizing members with
  | nil => rw [List.foldl_nil, List.append_nil]
  | cons member members' ih =>
    have hfresh : members.any (·.1 = member.1) = false := by
      rw [List.any_eq_false]
      intro other hother heq
      rw [KeyedLists.UniqueKeys, List.map_append, List.nodup_append] at hunique
      refine hunique.2.2 other.1 (List.mem_map_of_mem hother) member.1 ?_ (of_decide_eq_true heq)
      exact List.mem_map_of_mem List.mem_cons_self
    rw [List.foldl_cons, setMember, hfresh, if_neg (by decide), ih]
    · rw [List.append_assoc, List.singleton_append]
    · rwa [List.append_assoc, List.singleton_append]

theorem fromEntries_of_unique (hunique : KeyedLists.UniqueKeys Prod.fst members) :
    fromEntries members = indicesFirst members := by
  rw [fromEntries, foldl_setMember (by rwa [List.nil_append]), List.nil_append]

theorem keys_canonicalizeMembers (members : List (JsString × Json)) :
    (canonicalizeMembers members).map Prod.fst = members.map Prod.fst := by
  induction members with
  | nil => rfl
  | cons member members ih =>
    obtain ⟨key, value⟩ := member
    rw [canonicalizeMembers, List.map_cons, List.map_cons, ih]

theorem mem_canonicalizeMembers {member : JsString × Json} :
    member ∈ canonicalizeMembers members ↔ ∃ value, (member.1, value) ∈ members ∧ member.2 = canonicalize value := by
  induction members with
  | nil => simp [canonicalizeMembers]
  | cons first members ih =>
    obtain ⟨key, value⟩ := first
    obtain ⟨key', value'⟩ := member
    simp only [canonicalizeMembers, List.mem_cons, ih, Prod.mk.injEq]
    constructor
    · rintro (⟨rfl, rfl⟩ | ⟨v, hv, rfl⟩)
      · exact ⟨value, Or.inl ⟨rfl, rfl⟩, rfl⟩
      · exact ⟨v, Or.inr hv, rfl⟩
    · rintro ⟨v, ⟨rfl, rfl⟩ | hv, rfl⟩
      · exact Or.inl ⟨rfl, rfl⟩
      · exact Or.inr ⟨v, hv, rfl⟩

def ordered (members : List (JsString × Json)) : List (JsString × Json) :=
  fromEntries (Sorting.sortByKey (fun member => sortKey member.1) (fromEntries members))

theorem sorted_perm (hunique : KeyedLists.UniqueKeys Prod.fst members) :
    (Sorting.sortByKey (fun member => sortKey member.1) (fromEntries members)).Perm members := by
  rw [fromEntries_of_unique hunique]
  exact (Sorting.sortByKey_perm _ _).trans (indicesFirst_perm members)

theorem ordered_perm (hunique : KeyedLists.UniqueKeys Prod.fst members) : (ordered members).Perm members := by
  have hsorted := sorted_perm hunique
  rw [ordered, fromEntries_of_unique ((hsorted.map Prod.fst).nodup_iff.mpr hunique)]
  exact (indicesFirst_perm _).trans hsorted

theorem sortKey_injective : Function.Injective sortKey := List.map_injective_iff.mpr fun _ _ => UInt16.toNat_inj.mp

theorem ordered_eq_iff (hunique : KeyedLists.UniqueKeys Prod.fst members)
    (hunique' : KeyedLists.UniqueKeys Prod.fst members') :
    ordered members = ordered members' ↔ members.Perm members' := by
  constructor
  · intro h
    exact (ordered_perm hunique).symm.trans (h ▸ ordered_perm hunique')
  · intro h
    rw [ordered, ordered, fromEntries_of_unique hunique, fromEntries_of_unique hunique']
    congr 1
    have hperm : (indicesFirst members).Perm (indicesFirst members') :=
      (indicesFirst_perm members).trans (h.trans (indicesFirst_perm members').symm)
    have hkeys : KeyedLists.UniqueKeys Prod.fst (indicesFirst members) :=
      ((indicesFirst_perm members).map Prod.fst).nodup_iff.mpr hunique
    have hsame := @Sorting.map_sortByKey_eq _ _ _ (fun member : JsString × Json => sortKey member.1) _ id _ _ hperm
      (fun a ha b hb hkey => hkeys.eq ha hb (sortKey_injective hkey))
    rwa [List.map_id, List.map_id] at hsame

theorem perm_iff_of_unique (hunique : KeyedLists.UniqueKeys Prod.fst members) :
    members.Perm members' ↔ members.length = members'.length ∧ ∀ member ∈ members, member ∈ members' := by
  constructor
  · exact fun h => ⟨h.length_eq, fun member => h.mem_iff.mp⟩
  · rintro ⟨hlength, hsub⟩
    have hnodup : members.Nodup := List.Nodup.of_map Prod.fst hunique
    exact (List.subperm_of_subset hnodup hsub).perm_of_length_le hlength.ge

theorem canonicalize_object (members : List (JsString × Json)) :
    canonicalize (.object members) = .object (ordered (canonicalizeMembers members)) := by
  rw [canonicalize, ordered]

theorem unique_canonicalizeMembers (hunique : KeyedLists.UniqueKeys Prod.fst members) :
    KeyedLists.UniqueKeys Prod.fst (canonicalizeMembers members) := by
  rwa [KeyedLists.UniqueKeys, keys_canonicalizeMembers]

theorem wellKeyed_of_mem (h : WellKeyedMembers members) {key : JsString} {value : Json} (hmem : (key, value) ∈ members) :
    WellKeyed value := by
  induction members with
  | nil => cases hmem
  | cons first members ih =>
    obtain ⟨firstKey, firstValue⟩ := first
    rw [WellKeyedMembers] at h
    rcases List.mem_cons.mp hmem with heq | hmem
    · cases heq
      exact h.1
    · exact ih h.2 hmem

mutual

theorem canonicalize_eq_iff (a b : Json) (ha : WellKeyed a) (hb : WellKeyed b) :
    canonicalize a = canonicalize b ↔ Same a b := by
  match a with
  | .null => cases b <;> simp [canonicalize, Same]
  | .bool x => cases b <;> simp [canonicalize, Same]
  | .number n => cases b <;> simp [canonicalize, Same]
  | .string s => cases b <;> simp [canonicalize, Same]
  | .array items =>
    cases b with
    | array items' =>
      rw [canonicalize, canonicalize, Json.array.injEq, Same]
      exact canonicalizeItems_eq_iff items items' ha hb
    | _ => simp [canonicalize, Same]
  | .object members =>
    cases b with
    | object members' =>
      have hlength : ∀ l, (canonicalizeMembers l).length = l.length := by
        intro l
        have h := congrArg List.length (keys_canonicalizeMembers l)
        rwa [List.length_map, List.length_map] at h
      have hunique := unique_canonicalizeMembers ha.1
      rw [canonicalize_object, canonicalize_object, Json.object.injEq,
        ordered_eq_iff hunique (unique_canonicalizeMembers hb.1), perm_iff_of_unique hunique, hlength, hlength, Same]
      exact and_congr_right fun _ => canonicalizeMembers_subset_iff members members' ha.2 hb.2
    | _ => simp [canonicalize, Same]

theorem canonicalizeItems_eq_iff (items items' : List Json) (h : WellKeyedItems items) (h' : WellKeyedItems items') :
    canonicalizeItems items = canonicalizeItems items' ↔ SameItems items items' := by
  match items with
  | [] => cases items' <;> simp [canonicalizeItems, SameItems]
  | item :: items =>
    cases items' with
    | nil => simp [canonicalizeItems, SameItems]
    | cons item' items' =>
      rw [canonicalizeItems, canonicalizeItems, List.cons.injEq, SameItems]
      exact and_congr (canonicalize_eq_iff item item' h.1 h'.1) (canonicalizeItems_eq_iff items items' h.2 h'.2)

theorem canonicalizeMembers_subset_iff (members members' : List (JsString × Json)) (h : WellKeyedMembers members)
    (h' : WellKeyedMembers members') :
    (∀ member ∈ canonicalizeMembers members, member ∈ canonicalizeMembers members') ↔ SameMembers members members' := by
  match members with
  | [] => simp [canonicalizeMembers, SameMembers]
  | (key, value) :: members =>
    rw [canonicalizeMembers, List.forall_mem_cons, SameMembers, mem_canonicalizeMembers]
    refine and_congr (exists_congr fun value' => and_congr_right fun hmem => ?_)
      (canonicalizeMembers_subset_iff members members' h.2 h')
    exact canonicalize_eq_iff value value' h.1 (wellKeyed_of_mem h' hmem)

end

theorem fingerprintPayload_eq_iff {sha256 : List UInt8 → List UInt8} (hsha : Function.Injective sha256) {a b : Json}
    (ha : WellKeyed a) (hb : WellKeyed b) : fingerprintPayload sha256 a = fingerprintPayload sha256 b ↔ Same a b := by
  rw [← canonicalize_eq_iff a b ha hb, fingerprintPayload, fingerprintPayload, (sha256Hex_injective hsha).eq_iff,
    asBytes_injective.eq_iff, String.ofList_inj, stringify_injective.eq_iff]

def sampleText : String := "\x7b\"7\":[true],\"b\":null\x7d"

def sampleSha256 : List UInt8 → List UInt8 :=
  tabulated [(asBytes sampleText,
    [0x97, 0x0b, 0x9e, 0xba, 0xa3, 0x08, 0xd3, 0x58, 0x76, 0xa4, 0x74, 0xf9, 0xc4, 0x20, 0x46, 0x7a,
      0x14, 0xaa, 0xa4, 0x14, 0xeb, 0x2b, 0x64, 0x6d, 0x2b, 0x9e, 0x48, 0x62, 0x13, 0x6f, 0xac, 0xe2])]

def reordered : Json := .object [([0x62], .null), ([0x37], .array [.bool true])]

theorem stringify_reordered : String.ofList (stringify (canonicalize reordered)) = sampleText := by
  decide +kernel

theorem fingerprintPayload_reordered :
    fingerprintPayload sampleSha256 reordered =
        "970b9ebaa308d35876a474f9c420467a14aaa414eb2b646d2b9e4862136face2" ∧
      fingerprintPayload sampleSha256 reordered =
        fingerprintPayload sampleSha256 (.object [([0x37], .array [.bool true]), ([0x62], .null)]) := by
  constructor
  · rw [fingerprintPayload, stringify_reordered]
    decide +kernel
  · refine (fingerprintPayload_eq_iff (tabulated_injective (by decide) (by decide)) ?_ ?_).mpr ?_
    · exact ⟨show List.Nodup _ by decide, trivial, ⟨trivial, trivial⟩, trivial⟩
    · exact ⟨show List.Nodup _ by decide, ⟨trivial, trivial⟩, trivial, trivial⟩
    · refine ⟨rfl, ⟨.null, by simp, ?_⟩, ⟨.array [.bool true], by simp, ?_⟩, trivial⟩
      · simp [Same]
      · simp [Same, SameItems]

end Equality

section Store

def idempotencyTtlSeconds : ℕ := 24 * 60 * 60

/-- Instants are milliseconds since the epoch. `builtBy` stands for the identity of the object: the request that
built it. -/
structure IdempotencyRecord (ι ρ : Type) where
  builtBy : ι
  scope : JsString
  key : JsString
  fingerprint : String
  resourceId : Json
  response : ρ
  createdAt : ℕ
  expiresAt : ℕ

variable {ι ρ : Type}

def buildIdempotencyRecord (sha256 : List UInt8 → List UInt8) (builtBy : ι) (scope key : JsString) (payload : Json)
    (resourceId : Json) (response : ρ) (now : ℕ) : IdempotencyRecord ι ρ :=
  { builtBy, scope, key, resourceId, response
    fingerprint := fingerprintPayload sha256 payload
    createdAt := now
    expiresAt := now + idempotencyTtlSeconds * 1000 }

def storageKey (scope key : JsString) : JsString := ofString "idempotency:" ++ scope ++ ofString ":" ++ key

theorem storageKey_injective (scope : JsString) : Function.Injective (storageKey scope) := by
  intro key key' h
  exact List.append_cancel_left h

structure InMemoryIdempotencyStore (ι ρ : Type) where
  records : JsString → Option (IdempotencyRecord ι ρ) := fun _ => none

namespace InMemoryIdempotencyStore

def live (store : InMemoryIdempotencyStore ι ρ) (now : ℕ) (id : JsString) :
    Option (IdempotencyRecord ι ρ) × InMemoryIdempotencyStore ι ρ :=
  match store.records id with
  | none => (none, store)
  | some record =>
    if record.expiresAt ≤ now then (none, { records := Function.update store.records id none })
    else (some record, store)

def get (store : InMemoryIdempotencyStore ι ρ) (now : ℕ) (scope key : JsString) :
    Option (IdempotencyRecord ι ρ) × InMemoryIdempotencyStore ι ρ :=
  store.live now (storageKey scope key)

def putIfAbsent (store : InMemoryIdempotencyStore ι ρ) (now : ℕ) (record : IdempotencyRecord ι ρ) :
    IdempotencyRecord ι ρ × InMemoryIdempotencyStore ι ρ :=
  let id := storageKey record.scope record.key
  match store.live now id with
  | (some existing, store) => (existing, store)
  | (none, store) => (record, { records := Function.update store.records id (some record) })

def liveAt (store : InMemoryIdempotencyStore ι ρ) (now : ℕ) (id : JsString) : Option (IdempotencyRecord ι ρ) :=
  (store.records id).filter fun record => !decide (record.expiresAt ≤ now)

theorem live_fst (store : InMemoryIdempotencyStore ι ρ) (now : ℕ) (id : JsString) :
    (store.live now id).1 = store.liveAt now id := by
  unfold live liveAt
  cases hrecord : store.records id with
  | none => rfl
  | some record => by_cases hexpired : record.expiresAt ≤ now <;> simp [hexpired, Option.filter]

theorem live_records (store : InMemoryIdempotencyStore ι ρ) (now : ℕ) (id : JsString) :
    (store.live now id).2.records = Function.update store.records id (store.liveAt now id) := by
  unfold live liveAt
  cases hrecord : store.records id with
  | none => exact Function.eq_update_self_iff.mpr hrecord
  | some record =>
    by_cases hexpired : record.expiresAt ≤ now
    · simp [hexpired, Option.filter]
    · simp only [hexpired, Option.filter, decide_false, Bool.not_false, ↓reduceIte]
      exact Function.eq_update_self_iff.mpr hrecord

theorem putIfAbsent_spec (store : InMemoryIdempotencyStore ι ρ) (now : ℕ) (record : IdempotencyRecord ι ρ) :
    (store.putIfAbsent now record).1 =
        (store.liveAt now (storageKey record.scope record.key)).getD record ∧
      (store.putIfAbsent now record).2.records =
        Function.update store.records (storageKey record.scope record.key)
          (some ((store.liveAt now (storageKey record.scope record.key)).getD record)) := by
  have hfst := store.live_fst now (storageKey record.scope record.key)
  have hsnd := store.live_records now (storageKey record.scope record.key)
  unfold putIfAbsent
  dsimp only
  rcases hlive : store.live now (storageKey record.scope record.key) with ⟨found, after⟩
  rw [hlive] at hfst hsnd
  dsimp only at hfst hsnd
  rw [← hfst] at hsnd ⊢
  cases found with
  | none => simp [hsnd]
  | some existing => simp [hsnd]

end InMemoryIdempotencyStore

end Store

end CrashLab.Idempotency
