import CrashLab.Histories
import CrashLab.JsStrings
import Mathlib.Data.List.DropRight

namespace CrashLab.Roles

open Histories JsStrings

inductive UserIdentity where
  | github
  | apiKey
  | oidc
deriving DecidableEq, Repr

def UserIdentity.text : UserIdentity → JsString
  | .github => ofString "github"
  | .apiKey => ofString "api-key"
  | .oidc => ofString "oidc"

inductive UserRole where
  | analyst
  | maintainer
deriving DecidableEq, Repr

structure RoleAssignment where
  id : JsString
  identityType : UserIdentity
  identityValue : JsString
  role : UserRole
  createdAt : JsString
  updatedAt : JsString
  createdBy : Option JsString
deriving DecidableEq, Repr

inductive RoleAuditAction where
  | assign
  | revoke
  | update
deriving DecidableEq, Repr

structure RoleAuditLog where
  id : JsString
  timestamp : JsString
  action : RoleAuditAction
  identityType : UserIdentity
  identityValue : JsString
  previousRole : Option UserRole
  newRole : Option UserRole
  performedBy : Option JsString
deriving DecidableEq, Repr

structure RoleState where
  records : JsString → Option RoleAssignment
  index : List JsString
  audit : List RoleAuditLog

namespace RoleState

def empty : RoleState := ⟨fun _ => none, [], []⟩

variable (s : RoleState)

def getRecord (key : JsString) : Option RoleAssignment := s.records key

def putRecord (key : JsString) (assignment : RoleAssignment) : RoleState :=
  { s with records := Function.update s.records key (some assignment) }

def deleteRecord (key : JsString) : RoleState := { s with records := Function.update s.records key none }

def addToIndex (member : JsString) : RoleState :=
  { s with index := if member ∈ s.index then s.index else s.index ++ [member] }

def removeFromIndex (member : JsString) : RoleState := { s with index := s.index.filter (· ≠ member) }

def appendEntry (entry : RoleAuditLog) (cap : ℕ) : RoleState :=
  { s with audit := (s.audit ++ [entry]).drop ((s.audit ++ [entry]).length - cap) }

end RoleState

structure AssignParams where
  identityType : UserIdentity
  identityValue : JsString
  role : UserRole
  performedBy : Option JsString
  now : Option JsString
  roleId : JsString
  logId : JsString

structure RevokeParams where
  identityType : UserIdentity
  identityValue : JsString
  performedBy : Option JsString
  now : Option JsString
  logId : JsString

section Store

variable (roleAuditMaxEntries : ℕ) (lower : JsString → JsString) (collates : JsString → JsString → Bool)

def roleRecordKey (identityType : UserIdentity) (identityValue : JsString) : JsString :=
  ofString "rbac:role:" ++ identityType.text ++ ofString ":" ++ lower identityValue

/-- The result is none where the call's promise is rejected. -/
def assignRole (params : AssignParams) (s : RoleState) : Option RoleAssignment × RoleState :=
  match params.now with
  | none => (none, s)
  | some now =>
    let key := roleRecordKey lower params.identityType params.identityValue
    let identityValue := trim params.identityValue
    match s.getRecord key with
    | some existing =>
      let updated :=
        { existing with
          identityValue := if existing.identityValue = [] then identityValue else existing.identityValue
          role := params.role
          updatedAt := now }
      let entry : RoleAuditLog :=
        { id := params.logId
          timestamp := now
          action := .update
          identityType := params.identityType
          identityValue := updated.identityValue
          previousRole := some existing.role
          newRole := some params.role
          performedBy := params.performedBy }
      (some updated, (s.putRecord key updated).appendEntry entry roleAuditMaxEntries)
    | none =>
      let assignment : RoleAssignment :=
        { id := params.roleId
          identityType := params.identityType
          identityValue
          role := params.role
          createdAt := now
          updatedAt := now
          createdBy := params.performedBy }
      let entry : RoleAuditLog :=
        { id := params.logId
          timestamp := now
          action := .assign
          identityType := params.identityType
          identityValue
          previousRole := none
          newRole := some params.role
          performedBy := params.performedBy }
      (some assignment, ((s.putRecord key assignment).addToIndex key).appendEntry entry roleAuditMaxEntries)

def revokeRole (params : RevokeParams) (s : RoleState) : Option Bool × RoleState :=
  let key := roleRecordKey lower params.identityType params.identityValue
  match s.getRecord key with
  | none => (some false, s)
  | some existing =>
    let s := (s.deleteRecord key).removeFromIndex key
    match params.now with
    | none => (none, s)
    | some now =>
      let entry : RoleAuditLog :=
        { id := params.logId
          timestamp := now
          action := .revoke
          identityType := params.identityType
          identityValue := existing.identityValue
          previousRole := some existing.role
          newRole := none
          performedBy := params.performedBy }
      (some true, s.appendEntry entry roleAuditMaxEntries)

def getRoleAssignment (s : RoleState) (identityType : UserIdentity) (identityValue : JsString) :
    Option RoleAssignment := s.getRecord (roleRecordKey lower identityType identityValue)

def listLoop : List JsString → RoleState → List RoleAssignment × RoleState
  | [], s => ([], s)
  | key :: keys, s =>
    match s.getRecord key with
    | none => listLoop keys (s.removeFromIndex key)
    | some assignment => (assignment :: (listLoop keys s).1, (listLoop keys s).2)

def listRoleAssignments (s : RoleState) : List RoleAssignment × RoleState :=
  ((listLoop s.index s).1.mergeSort fun a b => collates a.createdAt b.createdAt, (listLoop s.index s).2)

inductive Call where
  | assign (params : AssignParams)
  | revoke (params : RevokeParams)

def perform (s : RoleState) : Call → RoleState
  | .assign params => (assignRole roleAuditMaxEntries lower params s).2
  | .revoke params => (revokeRole roleAuditMaxEntries lower params s).2

def SameIdentity (a b : RoleAssignment) : Prop :=
  a.identityType = b.identityType ∧ lower (trim a.identityValue) = lower (trim b.identityValue)

/-- No identity is listed twice, and what is listed is found and revoked under its own identity. -/
structure Findable (s : RoleState) : Prop where
  single : (listRoleAssignments collates s).1.Pairwise fun a b => ¬SameIdentity lower a b
  found : ∀ a ∈ (listRoleAssignments collates s).1, getRoleAssignment lower s a.identityType a.identityValue = some a
  revoked : ∀ a ∈ (listRoleAssignments collates s).1, ∀ params : RevokeParams,
    params.identityType = a.identityType → params.identityValue = a.identityValue →
      a ∉ (listRoleAssignments collates (revokeRole roleAuditMaxEntries lower params s).2).1

def Call.Trimmed : Call → Prop
  | .assign params => params.now.isSome → lower (trim params.identityValue) = lower params.identityValue
  | .revoke _ => True

end Store

section Keys

variable {lower : JsString → JsString} {a b : UserIdentity} {v w : JsString}

theorem roleRecordKey_inj : roleRecordKey lower a v = roleRecordKey lower b w ↔ a = b ∧ lower v = lower w := by
  constructor
  · intro h
    simp only [roleRecordKey, List.append_assoc, List.append_cancel_left_eq] at h
    cases a <;> cases b <;> simp_all [UserIdentity.text, ofString, units]
  · rintro ⟨rfl, h⟩
    rw [roleRecordKey, roleRecordKey, h]

theorem trim_trim (v : JsString) : trim (trim v) = trim v := by
  have hpre : trim v <+: v.dropWhile isSpace := List.rdropWhile_prefix isSpace _
  have hstart : (trim v).dropWhile isSpace = trim v := by
    rw [List.dropWhile_eq_self_iff]
    intro hpos
    have hfirst := List.dropWhile_get_zero_not isSpace v (hpos.trans_le hpre.length_le)
    obtain ⟨rest, hrest⟩ := hpre
    simp only [← hrest, List.get_eq_getElem] at hfirst
    rwa [List.getElem_append_left hpos] at hfirst
  have hend : ((trim v).reverse.dropWhile isSpace).reverse = trim v :=
    List.rdropWhile_idempotent isSpace (v.dropWhile isSpace)
  calc trim (trim v) = (((trim v).dropWhile isSpace).reverse.dropWhile isSpace).reverse := rfl
    _ = trim v := by rw [hstart, hend]

end Keys

section Lists

variable (collates : JsString → JsString → Bool) {s : RoleState} {a : RoleAssignment}

theorem listLoop_eq (keys : List JsString) (s : RoleState) : (listLoop keys s).1 = keys.filterMap s.records := by
  induction keys generalizing s with
  | nil => rfl
  | cons key keys ih =>
    rw [listLoop, List.filterMap_cons]
    cases hrecord : s.records key with
    | none =>
      simp only [RoleState.getRecord, hrecord]
      exact ih _
    | some assignment =>
      simp only [RoleState.getRecord, hrecord, ih]

theorem listed_perm (s : RoleState) : (listRoleAssignments collates s).1.Perm (s.index.filterMap s.records) := by
  rw [← listLoop_eq]
  exact List.mergeSort_perm _ _

theorem mem_listed : a ∈ (listRoleAssignments collates s).1 ↔ ∃ key ∈ s.index, s.records key = some a := by
  rw [(listed_perm collates s).mem_iff, List.mem_filterMap]

end Lists

section States

variable (roleAuditMaxEntries : ℕ) (lower : JsString → JsString) (collates : JsString → JsString → Bool)

structure Sourced (s : RoleState) : Prop where
  nodup : s.index.Nodup
  indexed : ∀ key, key ∈ s.index ↔ (s.records key).isSome
  source : ∀ key a, s.records key = some a →
    ∃ v, key = roleRecordKey lower a.identityType v ∧ a.identityValue = trim v

def Keyed (s : RoleState) : Prop :=
  ∀ key a, s.records key = some a → roleRecordKey lower a.identityType a.identityValue = key

variable {lower} {s : RoleState}

theorem RoleState.index_added {key : JsString} (h : key ∉ s.index) (a : RoleAssignment) (entry : RoleAuditLog)
    (cap : ℕ) : (((s.putRecord key a).addToIndex key).appendEntry entry cap).index = s.index ++ [key] := if_neg h

theorem sourced_empty : Sourced lower .empty := ⟨.nil, by simp [RoleState.empty], nofun⟩

theorem assigned (hs : Sourced lower s) (params : AssignParams) {now : JsString} (hnow : params.now = some now) :
    ∃ a v, (assignRole roleAuditMaxEntries lower params s).2.records =
        Function.update s.records (roleRecordKey lower params.identityType params.identityValue) (some a) ∧
      (∀ key, key ∈ (assignRole roleAuditMaxEntries lower params s).2.index ↔
        key = roleRecordKey lower params.identityType params.identityValue ∨ key ∈ s.index) ∧
      (assignRole roleAuditMaxEntries lower params s).2.index.Nodup ∧
      a.identityType = params.identityType ∧ lower v = lower params.identityValue ∧ a.identityValue = trim v ∧
      (Keyed lower s → (a.identityValue = trim params.identityValue ∨
        roleRecordKey lower a.identityType a.identityValue =
          roleRecordKey lower params.identityType params.identityValue)) := by
  unfold assignRole
  simp only [hnow, RoleState.getRecord]
  cases hrecord : s.records (roleRecordKey lower params.identityType params.identityValue) with
  | none =>
    have habsent : roleRecordKey lower params.identityType params.identityValue ∉ s.index := by
      rw [hs.indexed, hrecord]
      nofun
    refine ⟨_, params.identityValue, rfl, ?_, ?_, rfl, rfl, rfl, fun _ => .inl rfl⟩
    · intro key
      rw [RoleState.index_added habsent, List.mem_append, List.mem_singleton]
      exact or_comm
    · rw [RoleState.index_added habsent, ← List.concat_eq_append]
      exact hs.nodup.concat habsent
  | some existing =>
    obtain ⟨v, hkey, hvalue⟩ := hs.source _ _ hrecord
    obtain ⟨htype, hlower⟩ := roleRecordKey_inj.mp hkey
    have hpresent : roleRecordKey lower params.identityType params.identityValue ∈ s.index := by
      rw [hs.indexed, hrecord]
      rfl
    have hindex : ∀ key, key ∈ s.index ↔
        key = roleRecordKey lower params.identityType params.identityValue ∨ key ∈ s.index := by
      intro key
      rw [iff_or_self]
      rintro rfl
      exact hpresent
    by_cases hempty : existing.identityValue = []
    · refine ⟨_, params.identityValue, rfl, hindex, hs.nodup, htype.symm, rfl, if_pos hempty, fun _ => ?_⟩
      exact .inl (if_pos hempty)
    · refine ⟨_, v, rfl, hindex, hs.nodup, htype.symm, hlower.symm, (if_neg hempty).trans hvalue, fun hkeyed => ?_⟩
      refine .inr ?_
      rw [if_neg hempty]
      exact hkeyed _ existing hrecord

theorem records_revokeRole (params : RevokeParams) :
    (revokeRole roleAuditMaxEntries lower params s).2.records =
      Function.update s.records (roleRecordKey lower params.identityType params.identityValue) none := by
  unfold revokeRole
  simp only [RoleState.getRecord]
  cases hrecord : s.records (roleRecordKey lower params.identityType params.identityValue) with
  | none => exact (Function.update_eq_self_iff.mpr hrecord.symm).symm
  | some existing => cases params.now <;> rfl

theorem index_revokeRole (hs : Sourced lower s) (params : RevokeParams) :
    (revokeRole roleAuditMaxEntries lower params s).2.index =
      s.index.filter (· ≠ roleRecordKey lower params.identityType params.identityValue) := by
  unfold revokeRole
  simp only [RoleState.getRecord]
  cases hrecord : s.records (roleRecordKey lower params.identityType params.identityValue) with
  | none =>
    symm
    rw [List.filter_eq_self]
    intro key hkey
    apply decide_eq_true
    rintro rfl
    rw [hs.indexed, hrecord] at hkey
    cases hkey
  | some existing => cases params.now <;> rfl

theorem sourced_perform (hs : Sourced lower s) (call : Call) :
    Sourced lower (perform roleAuditMaxEntries lower s call) := by
  cases call with
  | assign params =>
    rw [perform]
    cases hnow : params.now with
    | none =>
      rw [assignRole, hnow]
      exact hs
    | some now =>
      obtain ⟨a, v, hrecords, hindex, hnodup, htype, hlower, hvalue, -⟩ := assigned roleAuditMaxEntries hs params hnow
      refine ⟨hnodup, ?_, ?_⟩
      · intro key
        rw [hindex, hrecords, Function.update_apply]
        split_ifs with hkey
        · simp [hkey]
        · simp [hkey, hs.indexed]
      · intro key b hb
        rw [hrecords, Function.update_apply] at hb
        split_ifs at hb with hkey
        · cases hb
          refine ⟨v, hkey.trans ?_, hvalue⟩
          exact roleRecordKey_inj.mpr ⟨htype.symm, hlower.symm⟩
        · exact hs.source key b hb
  | revoke params =>
    rw [perform]
    refine ⟨?_, ?_, ?_⟩
    · rw [index_revokeRole roleAuditMaxEntries hs]
      exact hs.nodup.filter _
    · intro key
      rw [index_revokeRole roleAuditMaxEntries hs, records_revokeRole, List.mem_filter, Function.update_apply]
      split_ifs with hkey
      · simp [hkey]
      · simp [hkey, hs.indexed]
    · intro key a ha
      rw [records_revokeRole, Function.update_apply] at ha
      split_ifs at ha with hkey
      exact hs.source key a ha

theorem findable_iff (hs : Sourced lower s) : Findable roleAuditMaxEntries lower collates s ↔ Keyed lower s := by
  constructor
  · intro hfindable key a ha
    by_contra hne
    have hkey : key ∈ s.index := by
      rw [hs.indexed, ha]
      rfl
    have hlisted := (mem_listed collates).mpr ⟨key, hkey, ha⟩
    apply hfindable.revoked a hlisted ⟨a.identityType, a.identityValue, none, none, []⟩ rfl rfl
    rw [mem_listed, index_revokeRole roleAuditMaxEntries hs, records_revokeRole]
    refine ⟨key, ?_, ?_⟩
    · rw [List.mem_filter]
      exact ⟨hkey, decide_eq_true (Ne.symm hne)⟩
    · rw [Function.update_of_ne (Ne.symm hne), ha]
  · intro hkeyed
    refine ⟨?_, ?_, ?_⟩
    · have hsymm : ∀ {a b}, ¬SameIdentity lower a b → ¬SameIdentity lower b a := fun h hsame =>
        h ⟨hsame.1.symm, hsame.2.symm⟩
      rw [(listed_perm collates s).pairwise_iff hsymm, List.pairwise_filterMap]
      apply hs.nodup.imp
      intro key key' hne a ha b hb hsame
      obtain ⟨v, -, hv⟩ := hs.source _ _ ha
      obtain ⟨w, -, hw⟩ := hs.source _ _ hb
      obtain ⟨htype, hvalue⟩ := hsame
      rw [hv, hw, trim_trim, trim_trim, ← hv, ← hw] at hvalue
      apply hne
      rw [← hkeyed _ _ ha, ← hkeyed _ _ hb]
      exact roleRecordKey_inj.mpr ⟨htype, hvalue⟩
    · intro a ha
      obtain ⟨key, -, hrecord⟩ := (mem_listed collates).mp ha
      rw [getRoleAssignment, RoleState.getRecord, hkeyed _ _ hrecord, hrecord]
    · rintro a ha params htype hvalue hlisted
      obtain ⟨key, -, hrecord⟩ := (mem_listed collates).mp hlisted
      rw [records_revokeRole, htype, hvalue, Function.update_apply] at hrecord
      split_ifs at hrecord with hkey
      exact hkey (hkeyed _ _ hrecord).symm

end States

section Runs

variable (roleAuditMaxEntries : ℕ) {lower : JsString → JsString} (collates : JsString → JsString → Bool) {s : RoleState}

theorem keyed_perform_iff (hlower : ∀ v, lower (trim v) = trim (lower v)) (hs : Sourced lower s)
    (hkeyed : Keyed lower s) (call : Call) :
    Keyed lower (perform roleAuditMaxEntries lower s call) ↔ call.Trimmed lower := by
  cases call with
  | assign params =>
    rw [perform, Call.Trimmed]
    cases hnow : params.now with
    | none =>
      rw [assignRole, hnow]
      exact iff_of_true hkeyed nofun
    | some now =>
      obtain ⟨a, v, hrecords, -, -, htype, hsame, hvalue, hown⟩ := assigned roleAuditMaxEntries hs params hnow
      simp only [Option.isSome_some, true_imp_iff]
      constructor
      · intro hnext
        have hkey := hnext _ a (by rw [hrecords, Function.update_self])
        obtain ⟨-, hlowers⟩ := roleRecordKey_inj.mp hkey
        rw [hvalue] at hlowers
        calc lower (trim params.identityValue) = trim (lower params.identityValue) := hlower _
          _ = trim (lower v) := by rw [hsame]
          _ = lower (trim v) := (hlower v).symm
          _ = lower params.identityValue := hlowers
      · intro htrimmed key b hb
        rw [hrecords, Function.update_apply] at hb
        split_ifs at hb with hkey
        · cases hb
          obtain hvalue | hfound := hown hkeyed
          · rw [hvalue, hkey]
            exact roleRecordKey_inj.mpr ⟨htype, htrimmed⟩
          · exact hfound.trans hkey.symm
        · exact hkeyed key b hb
  | revoke params =>
    refine iff_of_true ?_ trivial
    intro key a ha
    rw [perform, records_revokeRole, Function.update_apply] at ha
    split_ifs at ha with hkey
    exact hkeyed key a ha

theorem listed_always_findable_iff (hlower : ∀ v, lower (trim v) = trim (lower v)) (calls : List Call) :
    Always (perform roleAuditMaxEntries lower) (Findable roleAuditMaxEntries lower collates) .empty calls ↔
      ∀ call ∈ calls, call.Trimmed lower := by
  have hempty : Keyed lower .empty := nofun
  have hsourced := @sourced_empty lower
  have hiff : ∀ s call, Sourced lower s ∧ Keyed lower s →
      (Findable roleAuditMaxEntries lower collates (perform roleAuditMaxEntries lower s call) ↔ call.Trimmed lower) := by
    rintro s call ⟨hs, hkeyed⟩
    rw [findable_iff roleAuditMaxEntries collates (sourced_perform roleAuditMaxEntries hs call)]
    exact keyed_perform_iff roleAuditMaxEntries hlower hs hkeyed call
  rw [always_iff_eachStep ((findable_iff roleAuditMaxEntries collates hsourced).mpr hempty),
    ← @eachStep_forall_iff _ _ (perform roleAuditMaxEntries lower)]
  apply eachStep_iff ?_ hiff ⟨hsourced, hempty⟩
  rintro s call ⟨hs, hkeyed⟩ hfindable
  have hs' := sourced_perform roleAuditMaxEntries hs call
  exact ⟨hs', (findable_iff roleAuditMaxEntries collates hs').mp hfindable⟩

theorem isSpace_lowerAscii (u : UInt16) :
    isSpace (if 0x41 ≤ u.toNat ∧ u.toNat ≤ 0x5A then UInt16.ofNat (u.toNat + 0x20) else u) = isSpace u := by
  split_ifs with hupper
  · have hvalue : (UInt16.ofNat (u.toNat + 0x20)).toNat = u.toNat + 0x20 := by
      rw [UInt16.toNat_ofNat']
      omega
    have hno : ∀ n, 0x41 ≤ n → n ≤ 0x7A → ∀ v : UInt16, v.toNat = n → isSpace v = false := by
      intro n hleast hmost v hv
      simp [isSpace, hv]
      omega
    rw [hno _ (by omega) (by omega) _ hvalue, hno u.toNat (by omega) (by omega) u rfl]
  · rfl

theorem lowerAscii_trim (v : JsString) : lowerAscii (trim v) = trim (lowerAscii v) := by
  have hmap : ∀ w : JsString, (lowerAscii w).dropWhile isSpace = lowerAscii (w.dropWhile isSpace) := by
    intro w
    rw [lowerAscii, List.dropWhile_map, lowerAscii]
    congr 2
    funext u
    exact isSpace_lowerAscii u
  have hreverse : ∀ w : JsString, (lowerAscii w).reverse = lowerAscii w.reverse := fun w => List.map_reverse.symm
  rw [trim, trim, hmap, hreverse, hmap, hreverse]

def grant (value : String) : Call :=
  .assign
    { identityType := .github
      identityValue := ofString value
      role := .maintainer
      performedBy := none
      now := some (ofString "2026-01-01T00:00:00.000Z")
      roleId := ofString "role_1"
      logId := ofString "log_1" }

theorem granted_twice : Always (perform 1000 lowerAscii) (Findable 1000 lowerAscii fun _ _ => true) .empty
    [grant "Alice", grant "alice"] :=
  (listed_always_findable_iff 1000 (fun _ _ => true) lowerAscii_trim _).mpr (by
    intro call hcall
    rcases List.mem_pair.mp hcall with rfl | rfl
    · exact fun _ => by decide +kernel
    · exact fun _ => by decide +kernel)

theorem padded_grant_stays : ∃ a,
    (listRoleAssignments (fun _ _ => true) (perform 1000 lowerAscii .empty (grant "alice "))).1 = [a] ∧
      a.identityValue = ofString "alice" ∧
      getRoleAssignment lowerAscii (perform 1000 lowerAscii .empty (grant "alice ")) a.identityType a.identityValue =
        none ∧
      a ∈ (listRoleAssignments (fun _ _ => true) (revokeRole 1000 lowerAscii
        ⟨a.identityType, a.identityValue, none, some [], []⟩ (perform 1000 lowerAscii .empty (grant "alice "))).2).1 := by
  -- a grant to a name with a blank behind it is listed, but not found and not revoked under that name
  have hlisted : (listRoleAssignments (fun _ _ => true) (perform 1000 lowerAscii .empty (grant "alice "))).1.map
      RoleAssignment.identityValue = [ofString "alice"] := by decide +kernel
  obtain ⟨a, hlist, hvalue⟩ := List.map_eq_singleton_iff.mp hlisted
  have hall : ∀ b ∈ (listRoleAssignments (fun _ _ => true) (perform 1000 lowerAscii .empty (grant "alice "))).1,
      getRoleAssignment lowerAscii (perform 1000 lowerAscii .empty (grant "alice ")) b.identityType b.identityValue =
        none ∧
      b ∈ (listRoleAssignments (fun _ _ => true) (revokeRole 1000 lowerAscii
        ⟨b.identityType, b.identityValue, none, some [], []⟩ (perform 1000 lowerAscii .empty (grant "alice "))).2).1 := by
    decide +kernel
  obtain ⟨hfound, hkept⟩ := hall a (hlist ▸ List.mem_singleton_self a)
  exact ⟨a, hlist, hvalue, hfound, hkept⟩

end Runs

end CrashLab.Roles
