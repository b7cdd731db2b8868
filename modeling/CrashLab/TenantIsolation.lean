import CrashLab.Histories
import CrashLab.ScopedRepository

namespace CrashLab.Tenancy

open JsStrings JsonTexts KeyedLists Objects Histories

section Keys

def recordPrefix (collection : JsString) (tenant : JsString × JsString) : JsString :=
  prefixText tenant.1 tenant.2 ++ (collection ++ [slash])

def idOf (collection : JsString) (tenant : JsString × JsString) (key : JsString) : Option JsString :=
  if (recordPrefix collection tenant).isPrefixOf key then some (key.drop (recordPrefix collection tenant).length)
  else none

variable {collection : JsString} {tenant : JsString × JsString}

theorem idOf_eq_some {key id : JsString} :
    idOf collection tenant key = some id ↔ key = recordPrefix collection tenant ++ id := by
  unfold idOf
  constructor
  · intro h
    split_ifs at h with hkey
    obtain ⟨rest, rfl⟩ := List.isPrefixOf_iff_prefix.mp hkey
    rw [List.drop_left, Option.some.injEq] at h
    rw [h]
  · rintro rfl
    rw [if_pos (List.isPrefixOf_iff_prefix.mpr (List.prefix_append _ _)), List.drop_left]

theorem distinct_idOf : Distinct (idOf collection tenant) := by
  intro k k' id hk hk'
  rw [idOf_eq_some.mp hk, idOf_eq_some.mp hk']

theorem tenant_eq_of_records {scope observer : TenantScope} {rest id : JsString}
    (h : recordPrefix collection scope.tenant ++ id = recordPrefix collection observer.tenant ++ rest) :
    scope.tenant = observer.tenant := by
  simp only [recordPrefix, List.append_assoc] at h
  have hscope := splitOn_prefixText scope.orgId_valid scope.projectId_valid (collection ++ ([slash] ++ id))
  have hobserver := splitOn_prefixText observer.orgId_valid observer.projectId_valid
    (collection ++ ([slash] ++ rest))
  have hsplit := hscope.symm.trans ((congrArg (List.splitOn slash) h).trans hobserver)
  simp only [List.cons.injEq, true_and] at hsplit
  exact Prod.ext hsplit.1 hsplit.2.1

theorem idOf_key (collection : JsString) (scope observer : TenantScope) (id : JsString) :
    idOf collection observer.tenant (recordPrefix collection scope.tenant ++ id) =
      if scope.tenant = observer.tenant then some id else none := by
  split_ifs with h
  · rw [idOf_eq_some, h]
  · cases hid : idOf collection observer.tenant (recordPrefix collection scope.tenant ++ id) with
    | none => rfl
    | some rest => exact absurd (tenant_eq_of_records (idOf_eq_some.mp hid)) h

def refusal (collection id : JsString) : Option StorageKeyError :=
  match joinTenantKey [] (collection ++ slash :: id) with
  | .error error => some error
  | .ok _ => none

theorem scopePrefix_eq (scope : TenantScope) : scopePrefix scope = .ok (prefixText scope.orgId scope.projectId) :=
  tenantKeyPrefix_eq_ok.mpr ⟨scope.orgId_valid, scope.projectId_valid, rfl⟩

theorem key_eq (repository : ScopedRepository) (scope : TenantScope) (id : JsString) :
    repository.key scope id =
      match refusal repository.collection id with
      | some error => .error error
      | none => .ok (recordPrefix repository.collection scope.tenant ++ id) := by
  have hkey : repository.key scope id =
      joinTenantKey (prefixText scope.orgId scope.projectId) (repository.collection ++ slash :: id) := by
    rw [ScopedRepository.key, scopedStorageKey, scopePrefix_eq]
    rfl
  rw [hkey, refusal]
  unfold joinTenantKey
  split_ifs
  · rfl
  · simp [recordPrefix, TenantScope.tenant]

end Keys

section Live

abbrev Live := Members JsString Fields

def Live.find (live : Live) (id : JsString) : Option Fields := (KeyedLists.get Prod.fst id live).map Prod.snd

variable (collection : JsString)

def Live.step (live : Live) : Call → Live
  | .create record bytes =>
    let id := newTenantId collection bytes
    assign live (id, spread record [idMember id])
  | .update id patch =>
    match live.find id with
    | none => live
    | some existing => assign live (id, spread (spread existing patch) [idMember id])
  | .delete id => KeyedLists.remove Prod.fst id live
  | .get _ | .list => live

def Live.reply (live : Live) : Call → Reply
  | .create record bytes => .record (some (spread record [idMember (newTenantId collection bytes)]))
  | .get id => ((refusal collection id).map Reply.thrown).getD (.record (live.find id))
  | .list => .records (live.map Prod.snd)
  | .update id patch => ((refusal collection id).map Reply.thrown).getD
    (.record ((live.find id).map fun existing => spread (spread existing patch) [idMember id]))
  | .delete id => ((refusal collection id).map Reply.thrown).getD (.deleted (live.find id).isSome)

def Live.Safe (live : Live) : Prop := ∀ entry ∈ live, refusal collection entry.1 = none

end Live

section Step

variable {repository : ScopedRepository} {observer : TenantScope}

def ScopedRepository.live (repository : ScopedRepository) (observer : TenantScope) : Live :=
  view (idOf repository.collection observer.tenant) repository.backend

@[simp] theorem auditIfForeign_backend (scope : TenantScope) (id key : JsString) (operation : String) :
    (repository.auditIfForeign scope id key operation).backend = repository.backend := by
  unfold ScopedRepository.auditIfForeign
  cases repository.owners id with
  | none => rfl
  | some owner =>
    dsimp only
    split_ifs <;> rfl

@[simp] theorem auditIfForeign_collection (scope : TenantScope) (id key : JsString) (operation : String) :
    (repository.auditIfForeign scope id key operation).collection = repository.collection := by
  unfold ScopedRepository.auditIfForeign
  cases repository.owners id with
  | none => rfl
  | some owner =>
    dsimp only
    split_ifs <;> rfl

theorem live_assign (repository : ScopedRepository) (observer scope : TenantScope) (id : JsString) (record : Fields) :
    view (idOf repository.collection observer.tenant)
        (assign repository.backend (recordPrefix repository.collection scope.tenant ++ id, record)) =
      if scope.tenant = observer.tenant then assign (repository.live observer) (id, record)
      else repository.live observer := by
  have hkey := idOf_key repository.collection scope observer id
  split_ifs with h
  · rw [if_pos h] at hkey
    exact view_assign distinct_idOf hkey record repository.backend
  · rw [if_neg h] at hkey
    exact view_assign_of_none hkey record repository.backend

theorem live_remove (repository : ScopedRepository) (observer scope : TenantScope) (id : JsString) :
    view (idOf repository.collection observer.tenant)
        (KeyedLists.remove Prod.fst (recordPrefix repository.collection scope.tenant ++ id) repository.backend) =
      if scope.tenant = observer.tenant then KeyedLists.remove Prod.fst id (repository.live observer)
      else repository.live observer := by
  have hkey := idOf_key repository.collection scope observer id
  split_ifs with h
  · rw [if_pos h] at hkey
    exact view_remove distinct_idOf hkey repository.backend
  · rw [if_neg h] at hkey
    exact view_remove_of_none hkey repository.backend

theorem find_eq {scope : TenantScope} (h : scope.tenant = observer.tenant) (id : JsString) :
    repository.find (recordPrefix repository.collection scope.tenant ++ id) = (repository.live observer).find id := by
  have hkey := idOf_key repository.collection scope observer id
  rw [if_pos h] at hkey
  exact (view_get distinct_idOf hkey repository.backend).symm

structure Isolates (repository : ScopedRepository) (observer : TenantScope) (c : ScopedCall) : Prop where
  collection : (repository.perform c).2.collection = repository.collection
  own : c.scope.tenant = observer.tenant →
    (repository.perform c).1 = (repository.live observer).reply repository.collection c.call ∧
      view (idOf repository.collection observer.tenant) (repository.perform c).2.backend =
        (repository.live observer).step repository.collection c.call
  foreign : c.scope.tenant ≠ observer.tenant →
    view (idOf repository.collection observer.tenant) (repository.perform c).2.backend = repository.live observer

theorem find_none_of_refusal {live : Live} {collection : JsString} (safe : live.Safe collection) {id : JsString}
    {error : StorageKeyError} (h : refusal collection id = some error) : live.find id = none := by
  rw [Live.find, Option.map_eq_none_iff, KeyedLists.get_eq_none]
  rintro entry hentry rfl
  rw [safe entry hentry] at h
  cases h

theorem remove_of_find_none {live : Live} {id : JsString} (h : live.find id = none) :
    KeyedLists.remove Prod.fst id live = live := by
  rw [Live.find, Option.map_eq_none_iff, KeyedLists.get_eq_none] at h
  exact List.filter_eq_self.mpr fun entry hentry => by simpa using h entry hentry

theorem isolates_create (scope : TenantScope) {record : Fields} {bytes : List UInt8}
    (hsafe : refusal repository.collection (newTenantId repository.collection bytes) = none) :
    Isolates repository observer ⟨scope, .create record bytes⟩ := by
  have hkey := key_eq repository scope (newTenantId repository.collection bytes)
  rw [hsafe] at hkey
  have hperform : repository.perform ⟨scope, .create record bytes⟩ = repository.create scope record bytes := rfl
  unfold ScopedRepository.create at hperform
  simp only [hkey] at hperform
  have hlive := live_assign repository observer scope
    (newTenantId repository.collection bytes) (spread record [idMember (newTenantId repository.collection bytes)])
  constructor
  · rw [hperform]
  · intro h
    rw [if_pos h] at hlive
    rw [hperform]
    exact ⟨rfl, hlive⟩
  · intro h
    rw [if_neg h] at hlive
    rw [hperform]
    exact hlive

theorem isolates_of_backend {c : ScopedCall} (hcollection : (repository.perform c).2.collection = repository.collection)
    (hbackend : (repository.perform c).2.backend = repository.backend)
    (own : c.scope.tenant = observer.tenant →
      (repository.perform c).1 = (repository.live observer).reply repository.collection c.call ∧
        (repository.live observer).step repository.collection c.call = repository.live observer) :
    Isolates repository observer c where
  collection := hcollection
  own := by
    intro h
    rw [hbackend, (own h).2]
    exact ⟨(own h).1, rfl⟩
  foreign := by
    intro _
    rw [hbackend]
    rfl

theorem isolates_list (scope : TenantScope) : Isolates repository observer ⟨scope, .list⟩ := by
  have hperform : repository.perform ⟨scope, .list⟩ = repository.list scope := rfl
  unfold ScopedRepository.list at hperform
  simp only [scopePrefix_eq] at hperform
  apply isolates_of_backend
  · rw [hperform]
  · rw [hperform]
  · intro h
    rw [hperform]
    refine ⟨?_, rfl⟩
    have hnamed : ∀ entry : JsString × Fields, (prefixText scope.orgId scope.projectId ++ repository.collection ++
        [slash]).isPrefixOf entry.1 = (idOf repository.collection observer.tenant entry.1).isSome := by
      intro entry
      have hrecords : recordPrefix repository.collection scope.tenant =
          prefixText scope.orgId scope.projectId ++ repository.collection ++ [slash] := (List.append_assoc ..).symm
      rw [← h, idOf, hrecords]
      split_ifs with hkey
      · exact hkey
      · exact Bool.eq_false_iff.mpr hkey
    simp only [hnamed]
    exact congrArg Reply.records (values_view repository.backend).symm

theorem isolates_get (scope : TenantScope) (id : JsString) : Isolates repository observer ⟨scope, .get id⟩ := by
  have hkey := key_eq repository scope id
  have hperform : repository.perform ⟨scope, .get id⟩ = repository.get scope id := rfl
  unfold ScopedRepository.get at hperform
  cases hrefused : refusal repository.collection id with
  | some error =>
    rw [hrefused] at hkey
    simp only [hkey] at hperform
    apply isolates_of_backend <;> rw [hperform]
    intro _
    exact ⟨by simp [Live.reply, hrefused], rfl⟩
  | none =>
    rw [hrefused] at hkey
    simp only [hkey] at hperform
    cases hfound : repository.find (recordPrefix repository.collection scope.tenant ++ id) with
    | some found =>
      simp only [hfound] at hperform
      apply isolates_of_backend <;> rw [hperform]
      intro h
      rw [find_eq h] at hfound
      exact ⟨by simp [Live.reply, hrefused, hfound], rfl⟩
    | none =>
      simp only [hfound] at hperform
      apply isolates_of_backend <;> simp only [hperform, auditIfForeign_backend, auditIfForeign_collection]
      intro h
      rw [find_eq h] at hfound
      exact ⟨by simp [Live.reply, hrefused, hfound], rfl⟩

theorem isolates_update (safe : (repository.live observer).Safe repository.collection) (scope : TenantScope)
    (id : JsString) (patch : Fields) : Isolates repository observer ⟨scope, .update id patch⟩ := by
  have hkey := key_eq repository scope id
  have hperform : repository.perform ⟨scope, .update id patch⟩ = repository.update scope id patch := rfl
  unfold ScopedRepository.update at hperform
  cases hrefused : refusal repository.collection id with
  | some error =>
    rw [hrefused] at hkey
    simp only [hkey] at hperform
    apply isolates_of_backend <;> rw [hperform]
    intro _
    exact ⟨by simp [Live.reply, hrefused], by simp [Live.step, find_none_of_refusal safe hrefused]⟩
  | none =>
    rw [hrefused] at hkey
    simp only [hkey] at hperform
    cases hfound : repository.find (recordPrefix repository.collection scope.tenant ++ id) with
    | none =>
      simp only [hfound] at hperform
      apply isolates_of_backend <;> simp only [hperform, auditIfForeign_backend, auditIfForeign_collection]
      intro h
      rw [find_eq h] at hfound
      exact ⟨by simp [Live.reply, hrefused, hfound], by simp [Live.step, hfound]⟩
    | some existing =>
      simp only [hfound] at hperform
      have hlive := live_assign repository observer scope id (spread (spread existing patch) [idMember id])
      constructor
      · rw [hperform]
      · intro h
        rw [if_pos h] at hlive
        rw [find_eq h] at hfound
        rw [hperform]
        exact ⟨by simp [Live.reply, hrefused, hfound], hlive.trans (by simp [Live.step, hfound])⟩
      · intro h
        rw [if_neg h] at hlive
        rw [hperform]
        exact hlive

theorem isolates_delete (safe : (repository.live observer).Safe repository.collection) (scope : TenantScope)
    (id : JsString) : Isolates repository observer ⟨scope, .delete id⟩ := by
  have hkey := key_eq repository scope id
  have hperform : repository.perform ⟨scope, .delete id⟩ = repository.delete scope id := rfl
  unfold ScopedRepository.delete at hperform
  cases hrefused : refusal repository.collection id with
  | some error =>
    rw [hrefused] at hkey
    simp only [hkey] at hperform
    apply isolates_of_backend <;> rw [hperform]
    intro _
    exact ⟨by simp [Live.reply, hrefused], remove_of_find_none (find_none_of_refusal safe hrefused)⟩
  | none =>
    rw [hrefused] at hkey
    simp only [hkey] at hperform
    cases hfound : repository.find (recordPrefix repository.collection scope.tenant ++ id) with
    | none =>
      simp only [hfound] at hperform
      apply isolates_of_backend <;> simp only [hperform, auditIfForeign_backend, auditIfForeign_collection]
      intro h
      rw [find_eq h] at hfound
      exact ⟨by simp [Live.reply, hrefused, hfound], remove_of_find_none hfound⟩
    | some existing =>
      simp only [hfound] at hperform
      have hlive := live_remove repository observer scope id
      constructor
      · rw [hperform]
      · intro h
        rw [if_pos h] at hlive
        rw [find_eq h] at hfound
        rw [hperform]
        exact ⟨by simp [Live.reply, hrefused, hfound], hlive⟩
      · intro h
        rw [if_neg h] at hlive
        rw [hperform]
        exact hlive

end Step

section Generated

def idUnit (u : UInt16) : Bool := isBase32 u || u == 0x5F

theorem idUnit_base32Digit (value : UInt32) (shift : ℕ) : idUnit (base32Digit value shift) = true := by
  have hall : ∀ n < 32, idUnit (base32.getD n 0) = true := by decide
  exact hall _ (Nat.mod_lt _ (by decide))

theorem drain_out {state : Base32State} (h : state.out.all idUnit = true) (fuel : ℕ) :
    (Base32State.drain fuel state).out.all idUnit = true := by
  induction fuel generalizing state with
  | zero => exact h
  | succ fuel ih =>
    rw [Base32State.drain]
    split_ifs
    · exact h
    · apply ih
      rw [List.all_append, h, List.all_cons, idUnit_base32Digit]
      rfl

theorem foldl_push_out (state : Base32State) (h : state.out.all idUnit = true) (bytes : List UInt8) :
    (bytes.foldl Base32State.push state).out.all idUnit = true := by
  induction bytes generalizing state with
  | nil => exact h
  | cons byte bytes ih =>
    apply ih
    apply drain_out
    exact h

theorem newTenantId_units {collection : JsString} (h : collection.all idUnit = true) (bytes : List UInt8) :
    (newTenantId collection bytes).all idUnit = true := by
  have hout := foldl_push_out ⟨0, 0, []⟩ rfl bytes
  have htag : (ofString "_").all idUnit = true := by decide
  unfold newTenantId
  dsimp only
  rw [List.all_append, List.all_append, h, htag]
  split_ifs
  · rw [List.all_append, hout, List.all_cons, idUnit_base32Digit]
    rfl
  · rw [hout]
    rfl

theorem not_mem_of_units {s : JsString} (h : s.all idUnit = true) {u : UInt16} (hu : idUnit u = false) : u ∉ s := by
  intro hmem
  rw [List.all_eq_true.mp h u hmem] at hu
  cases hu

theorem escapes_of_units {s : JsString} (h : s.all idUnit = true) (hne : s ≠ []) : escapes s = false := by
  have hdot := not_mem_of_units h (show idUnit 0x2E = false by decide)
  have hdots : s ≠ ofString ".." := by
    rintro rfl
    exact hdot (by decide)
  have hone : s ≠ ofString "." := by
    rintro rfl
    exact hdot (by decide)
  simp [escapes, hdots, hone, hne]

theorem newTenantId_ne_nil (collection : JsString) (bytes : List UInt8) : newTenantId collection bytes ≠ [] := by
  unfold newTenantId
  dsimp only
  intro h
  have htag : ofString "_" ≠ [] := by decide
  simp [htag] at h

theorem refusal_newTenantId {collection : JsString} (h : collection.all idUnit = true) (hne : collection ≠ [])
    (bytes : List UInt8) : refusal collection (newTenantId collection bytes) = none := by
  have hid := newTenantId_units h bytes
  have hslash : idUnit slash = false := by decide
  have hsplit : (collection ++ slash :: newTenantId collection bytes).splitOn slash =
      [collection, newTenantId collection bytes] := by
    rw [splitOn_cons_segment (not_mem_of_units h hslash), List.splitOn_eq_singleton (not_mem_of_units hid hslash)]
  have hhead : (collection ++ slash :: newTenantId collection bytes).head? ≠ some slash := by
    rw [List.head?_append_of_ne_nil _ hne]
    intro hhead
    exact not_mem_of_units h hslash (List.mem_of_mem_head? hhead)
  have hbackslash : (0x5C : UInt16) ∉ collection ++ slash :: newTenantId collection bytes := by
    have hunit : idUnit 0x5C = false := by decide
    simp only [List.mem_append, List.mem_cons, not_or]
    exact ⟨not_mem_of_units h hunit, by decide, not_mem_of_units hid hunit⟩
  have hjoin : joinTenantKey [] (collection ++ slash :: newTenantId collection bytes) =
      .ok (collection ++ slash :: newTenantId collection bytes) := by
    have hsegments : ¬ ((collection ++ slash :: newTenantId collection bytes).splitOn slash).any escapes = true := by
      rw [hsplit]
      simp [escapes_of_units h hne, escapes_of_units hid (newTenantId_ne_nil _ _)]
    rw [joinTenantKey, if_neg (not_or.mpr ⟨by simp, not_or.mpr ⟨hhead, not_or.mpr ⟨hsegments, hbackslash⟩⟩⟩)]
    rfl
  rw [refusal, hjoin]

end Generated

section Runs

def repliesTo (observer : TenantScope) (repository : ScopedRepository) : List ScopedCall → List Reply
  | [] => []
  | c :: calls =>
    if c.scope.tenant = observer.tenant then
      (repository.perform c).1 :: repliesTo observer (repository.perform c).2 calls
    else repliesTo observer (repository.perform c).2 calls

def after (repository : ScopedRepository) (calls : List ScopedCall) : ScopedRepository :=
  run (fun r c => (ScopedRepository.perform r c).2) repository calls

def callsOf (observer : TenantScope) (calls : List ScopedCall) : List ScopedCall :=
  calls.filter fun c => c.scope.tenant = observer.tenant

def liveAfter (collection : JsString) (observer : TenantScope) (calls : List ScopedCall) : Live :=
  run (Live.step collection) [] ((callsOf observer calls).map ScopedCall.call)

def ScopedRepository.entriesOf (repository : ScopedRepository) (observer : TenantScope) : Members JsString Fields :=
  repository.backend.filter fun entry => (recordPrefix repository.collection observer.tenant).isPrefixOf entry.1

structure TenantIsolated (repository : ScopedRepository) (observer : TenantScope) (calls : List ScopedCall) : Prop where
  unaffected : repliesTo observer repository calls = repliesTo observer repository (callsOf observer calls)
  lists : ∀ before rest scope, calls = before ++ ⟨scope, .list⟩ :: rest → scope.tenant = observer.tenant →
    ((after repository before).perform ⟨scope, .list⟩).1 =
      .records ((liveAfter repository.collection observer before).map Prod.snd)
  reads : ∀ before rest scope id, calls = before ++ ⟨scope, .get id⟩ :: rest → scope.tenant = observer.tenant →
    ∀ record, ((after repository before).perform ⟨scope, .get id⟩).1 = .record (some record) →
      (liveAfter repository.collection observer before).find id = some record
  untouched : ∀ before rest c, calls = before ++ c :: rest → c.scope.tenant ≠ observer.tenant →
    (after repository (before ++ [c])).entriesOf observer = (after repository before).entriesOf observer

def Live.replies (collection : JsString) (live : Live) : List Call → List Reply
  | [] => []
  | call :: calls => live.reply collection call :: Live.replies collection (live.step collection call) calls

variable {repository : ScopedRepository} {observer : TenantScope}

theorem mem_assign {κ ν : Type*} [DecidableEq κ] {members : Members κ ν} {member entry : κ × ν}
    (h : entry ∈ assign members member) : entry ∈ members ∨ entry = member := by
  unfold assign at h
  split_ifs at h with hany
  · obtain ⟨m, hm, rfl⟩ := List.mem_map.mp h
    split_ifs
    · exact .inr rfl
    · exact .inl hm
  · simpa [eq_comm] using h

theorem Live.Safe.step {live : Live} {collection : JsString} (safe : live.Safe collection)
    (generated : ∀ bytes, refusal collection (newTenantId collection bytes) = none) (call : Call) :
    (live.step collection call).Safe collection := by
  intro entry hentry
  cases call with
  | create record bytes =>
    rcases mem_assign hentry with hmem | rfl
    · exact safe entry hmem
    · exact generated bytes
  | update id patch =>
    unfold Live.step at hentry
    cases hfound : live.find id with
    | none =>
      simp only [hfound] at hentry
      exact safe entry hentry
    | some existing =>
      simp only [hfound] at hentry
      rcases mem_assign hentry with hmem | rfl
      · exact safe entry hmem
      · by_contra hrefused
        obtain ⟨error, herror⟩ := Option.ne_none_iff_exists'.mp hrefused
        rw [find_none_of_refusal safe herror] at hfound
        cases hfound
  | delete id => exact safe entry (KeyedLists.mem_remove.mp hentry).1
  | get id => exact safe entry hentry
  | list => exact safe entry hentry

theorem isolates (generated : ∀ bytes, refusal repository.collection (newTenantId repository.collection bytes) = none)
    (safe : (repository.live observer).Safe repository.collection) (c : ScopedCall) :
    Isolates repository observer c := by
  obtain ⟨scope, call⟩ := c
  cases call with
  | create record bytes => exact isolates_create scope (generated bytes)
  | get id => exact isolates_get scope id
  | list => exact isolates_list scope
  | update id patch => exact isolates_update safe scope id patch
  | delete id => exact isolates_delete safe scope id

theorem live_after (generated : ∀ bytes, refusal repository.collection (newTenantId repository.collection bytes) = none)
    (safe : (repository.live observer).Safe repository.collection) (calls : List ScopedCall) :
    (after repository calls).collection = repository.collection ∧
      (after repository calls).live observer =
        run (Live.step repository.collection) (repository.live observer)
          ((callsOf observer calls).map ScopedCall.call) ∧
      ((after repository calls).live observer).Safe repository.collection ∧
      repliesTo observer repository calls =
        Live.replies repository.collection (repository.live observer)
          ((callsOf observer calls).map ScopedCall.call) := by
  induction calls generalizing repository with
  | nil => exact ⟨rfl, rfl, safe, rfl⟩
  | cons c calls ih =>
    have hisolates := isolates generated safe c
    have hlive : ∀ live, view (idOf repository.collection observer.tenant) (repository.perform c).2.backend = live →
        (repository.perform c).2.live observer = live := by
      rintro _ rfl
      rw [ScopedRepository.live, hisolates.collection]
    have hafter : after repository (c :: calls) = after (repository.perform c).2 calls := rfl
    by_cases h : c.scope.tenant = observer.tenant
    · obtain ⟨hreply, hstep⟩ := hisolates.own h
      have hnext := hlive _ hstep
      obtain ⟨hcollection, hrun, hsafe, hreplies⟩ := @ih (repository.perform c).2 (hisolates.collection ▸ generated)
        (by rw [hnext, hisolates.collection]; exact safe.step generated c.call)
      have hcalls : callsOf observer (c :: calls) = c :: callsOf observer calls := by simp [callsOf, h]
      rw [hafter, hcalls, List.map_cons, run_cons, repliesTo, if_pos h, Live.replies, ← hnext, ← hreply,
        ← hisolates.collection]
      exact ⟨hcollection, hrun, hsafe, by rw [hreplies]⟩
    · have hnext := hlive _ (hisolates.foreign h)
      obtain ⟨hcollection, hrun, hsafe, hreplies⟩ := @ih (repository.perform c).2 (hisolates.collection ▸ generated)
        (by rw [hnext, hisolates.collection]; exact safe)
      have hcalls : callsOf observer (c :: calls) = callsOf observer calls := by simp [callsOf, h]
      rw [hafter, hcalls, repliesTo, if_neg h, ← hnext, ← hisolates.collection]
      exact ⟨hcollection, hrun, hsafe, hreplies⟩

theorem entriesOf_eq (repository : ScopedRepository) (observer : TenantScope) :
    repository.entriesOf observer = (repository.live observer).map fun entry =>
      (recordPrefix repository.collection observer.tenant ++ entry.1, entry.2) := by
  unfold ScopedRepository.entriesOf ScopedRepository.live
  induction repository.backend with
  | nil => rfl
  | cons entry backend ih =>
    cases hid : idOf repository.collection observer.tenant entry.1 with
    | none =>
      have hforeign : (recordPrefix repository.collection observer.tenant).isPrefixOf entry.1 = false := by
        unfold idOf at hid
        split_ifs at hid with hkey
        exact Bool.eq_false_iff.mpr hkey
      rw [view_cons_of_none hid, List.filter_cons_of_neg (by simp [hforeign]), ih]
    | some id =>
      have hkey := idOf_eq_some.mp hid
      have hown : (recordPrefix repository.collection observer.tenant).isPrefixOf entry.1 = true := by
        rw [hkey]
        exact List.isPrefixOf_iff_prefix.mpr (List.prefix_append _ _)
      rw [view_cons_of_some hid, List.filter_cons_of_pos (by simpa using hown), ih, List.map_cons, ← hkey]

theorem valid_of_create {collection : JsString} (created : ScopedRepository.create? collection = some repository) :
    repository.collection = collection ∧ repository.backend = [] ∧
      ∀ bytes, refusal repository.collection (newTenantId repository.collection bytes) = none := by
  unfold ScopedRepository.create? at created
  split_ifs at created with hvalid
  obtain rfl := Option.some.inj created
  refine ⟨rfl, rfl, ?_⟩
  apply refusal_newTenantId
  · apply List.all_eq_true.mpr
    intro u hu
    have hletter := List.all_eq_true.mp hvalid.2.2 u hu
    simp only [idUnit, isBase32, hletter, Bool.true_or]
  · rintro rfl
    exact absurd hvalid.1 (by decide)

theorem tenants_isolated {collection : JsString} (created : ScopedRepository.create? collection = some repository)
    (observer : TenantScope) (calls : List ScopedCall) : TenantIsolated repository observer calls := by
  obtain ⟨-, hempty, generated⟩ := valid_of_create created
  have hlive : repository.live observer = [] := by rw [ScopedRepository.live, hempty]; rfl
  have safe : (repository.live observer).Safe repository.collection := by
    rw [hlive]
    exact fun entry h => absurd h List.not_mem_nil
  have hafter := fun before => live_after generated safe before
  rw [hlive] at hafter
  -- a call in the middle of the run is judged in the state the calls before it leave
  have hmiddle : ∀ before c, Isolates (after repository before) observer c := by
    intro before c
    obtain ⟨hcollection, -, hsafe, -⟩ := hafter before
    apply isolates
    · rw [hcollection]
      exact generated
    · rw [hcollection]
      exact hsafe
  constructor
  · have hown : callsOf observer (callsOf observer calls) = callsOf observer calls := by
      rw [callsOf, callsOf, List.filter_filter]
      simp only [Bool.and_self]
    rw [(hafter calls).2.2.2, (hafter (callsOf observer calls)).2.2.2, hown]
  · intro before rest scope _ hscope
    rw [((hmiddle before _).own hscope).1, (hafter before).2.1]
    rfl
  · intro before rest scope id _ hscope record hreply
    rw [((hmiddle before _).own hscope).1, (hafter before).2.1] at hreply
    change ((refusal (after repository before).collection id).map Reply.thrown).getD _ = _ at hreply
    cases hrefused : refusal (after repository before).collection id with
    | some error => simp [hrefused] at hreply
    | none =>
      rw [hrefused] at hreply
      exact Reply.record.inj hreply
  · intro before rest c _ hforeign
    have hlast : after repository (before ++ [c]) = ((after repository before).perform c).2 := by
      rw [after, run_append]
      rfl
    have hisolates := hmiddle before c
    rw [entriesOf_eq, entriesOf_eq, hlast, ScopedRepository.live, hisolates.collection, hisolates.foreign hforeign]

end Runs

section Sample

def sampleScope (projectId : String) (h : projectIdPattern (ofString projectId) = true) : TenantScope where
  orgId := defaultOrgId
  projectId := ofString projectId
  principal := ofString "alice"
  orgId_valid := by decide
  projectId_valid := h

def defaultScope : TenantScope := sampleScope "prj_default" (by decide)

def otherScope : TenantScope := sampleScope "prj_aaaaaaaaaaaaaaaaaaaaaaaaaa" (by decide)

theorem runs_isolated : ∃ repository, ScopedRepository.create? (ofString "run") = some repository ∧
    TenantIsolated repository defaultScope
      [⟨defaultScope, .create [] (List.replicate 16 0)⟩, ⟨otherScope, .get (ofString "../run_x")⟩,
        ⟨otherScope, .delete (newTenantId (ofString "run") (List.replicate 16 0))⟩, ⟨defaultScope, .list⟩] :=
  have hcreated : ScopedRepository.create? (ofString "run") = some ⟨ofString "run", [], fun _ => none, []⟩ := rfl
  ⟨_, hcreated, tenants_isolated hcreated defaultScope _⟩

end Sample

end CrashLab.Tenancy
