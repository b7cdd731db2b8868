import CrashLab.JsonTexts

namespace CrashLab.Tenancy

open JsStrings JsonTexts

section Patterns

def slash : UInt16 := 0x2F

def isBase32 (u : UInt16) : Bool := (0x61 ≤ u.toNat && u.toNat ≤ 0x7A) || (0x32 ≤ u.toNat && u.toNat ≤ 0x37)

def idBody (s : JsString) : Bool := (s.length == 26 && s.all isBase32) || s == ofString "default"

def orgIdPattern (orgId : JsString) : Bool := (ofString "org_").isPrefixOf orgId && idBody (orgId.drop 4)

def projectIdPattern (projectId : JsString) : Bool :=
  (ofString "prj_").isPrefixOf projectId && idBody (projectId.drop 4)

def defaultOrgId : JsString := ofString "org_default"

def defaultProjectId : JsString := ofString "prj_default"

def tenantKeyPattern (key : JsString) : Bool :=
  match key.splitOn slash with
  | org :: orgId :: project :: projectId :: next :: _ =>
    org == ofString "org" && orgIdPattern orgId && project == ofString "project" && projectIdPattern projectId &&
      next != []
  | _ => false

end Patterns

section Keys

inductive StorageKeyError where
  | invalidOrgId (orgId : JsString)
  | invalidProjectId (projectId : JsString)
  | unsafeKey (relativeKey : JsString)
deriving DecidableEq

def StorageKeyError.message : StorageKeyError → List Char
  | .invalidOrgId orgId => "invalid org id ".toList ++ quote orgId
  | .invalidProjectId projectId => "invalid project id ".toList ++ quote projectId
  | .unsafeKey relativeKey => "unsafe storage key ".toList ++ quote relativeKey

def prefixText (orgId projectId : JsString) : JsString :=
  ofString "org" ++ slash :: (orgId ++ slash :: (ofString "project" ++ slash :: (projectId ++ [slash])))

def tenantKeyPrefix (orgId projectId : JsString) : Except StorageKeyError JsString :=
  if orgIdPattern orgId = false then .error (.invalidOrgId orgId)
  else if projectIdPattern projectId = false then .error (.invalidProjectId projectId)
  else .ok (prefixText orgId projectId)

def escapes (segment : JsString) : Bool := segment == ofString ".." || segment == ofString "." || segment == []

def joinTenantKey (keyPrefix relativeKey : JsString) : Except StorageKeyError JsString :=
  if relativeKey = [] ∨ relativeKey.head? = some slash ∨ (relativeKey.splitOn slash).any escapes = true ∨
      0x5C ∈ relativeKey then .error (.unsafeKey relativeKey)
  else .ok (keyPrefix ++ relativeKey)

def isTenantKey (key : JsString) : Bool := tenantKeyPattern key

end Keys

section Prefixes

theorem slash_not_mem_idBody {s : JsString} (h : idBody s = true) : slash ∉ s := by
  simp only [idBody, Bool.or_eq_true, Bool.and_eq_true, beq_iff_eq, List.all_eq_true] at h
  intro hmem
  rcases h with ⟨-, h⟩ | h
  · exact absurd (h slash hmem) (by decide)
  · rw [h] at hmem
    exact absurd hmem (by decide)

theorem slash_not_mem_tagged {tag s : JsString} (htag : slash ∉ tag) (hstart : tag.isPrefixOf s = true)
    (hbody : idBody (s.drop tag.length) = true) : slash ∉ s := by
  obtain ⟨body, rfl⟩ := List.isPrefixOf_iff_prefix.mp hstart
  rw [List.drop_left] at hbody
  simp [htag, slash_not_mem_idBody hbody]

theorem slash_not_mem_orgId {orgId : JsString} (h : orgIdPattern orgId = true) : slash ∉ orgId := by
  simp only [orgIdPattern, Bool.and_eq_true] at h
  exact slash_not_mem_tagged (by decide) h.1 h.2

theorem slash_not_mem_projectId {projectId : JsString} (h : projectIdPattern projectId = true) :
    slash ∉ projectId := by
  simp only [projectIdPattern, Bool.and_eq_true] at h
  exact slash_not_mem_tagged (by decide) h.1 h.2

theorem splitOn_cons_segment {segment : JsString} (h : slash ∉ segment) (rest : JsString) :
    (segment ++ slash :: rest).splitOn slash = segment :: rest.splitOn slash := by
  rw [List.splitOn_append_cons_self, List.splitOn_eq_singleton h, List.singleton_append]

theorem tenantKeyPrefix_eq_ok {orgId projectId keyPrefix : JsString} :
    tenantKeyPrefix orgId projectId = .ok keyPrefix ↔
      orgIdPattern orgId = true ∧ projectIdPattern projectId = true ∧ keyPrefix = prefixText orgId projectId := by
  unfold tenantKeyPrefix
  split_ifs with horg hproject
  · simp [horg]
  · simp [hproject]
  · rw [Bool.not_eq_false] at horg hproject
    simp only [horg, hproject, true_and, Except.ok.injEq]
    exact eq_comm

theorem joinTenantKey_eq_ok {keyPrefix relativeKey key : JsString}
    (h : joinTenantKey keyPrefix relativeKey = .ok key) : key = keyPrefix ++ relativeKey := by
  unfold joinTenantKey at h
  split_ifs at h
  exact (Except.ok.inj h).symm

theorem splitOn_prefixText {orgId projectId : JsString} (horg : orgIdPattern orgId = true)
    (hproject : projectIdPattern projectId = true) (rest : JsString) :
    (prefixText orgId projectId ++ rest).splitOn slash =
      ofString "org" :: orgId :: ofString "project" :: projectId :: rest.splitOn slash := by
  simp only [prefixText, List.append_assoc, List.cons_append, List.nil_append]
  rw [splitOn_cons_segment (by decide), splitOn_cons_segment (slash_not_mem_orgId horg),
    splitOn_cons_segment (by decide), splitOn_cons_segment (slash_not_mem_projectId hproject)]

theorem isTenantKey_prefixText {orgId projectId segment : JsString} (horg : orgIdPattern orgId = true)
    (hproject : projectIdPattern projectId = true) (hslash : slash ∉ segment) (hne : segment ≠ [])
    (rest : JsString) : isTenantKey (prefixText orgId projectId ++ (segment ++ slash :: rest)) = true := by
  rw [isTenantKey, tenantKeyPattern, splitOn_prefixText horg hproject, splitOn_cons_segment hslash]
  simp only [horg, hproject, beq_self_eq_true, Bool.and_self, Bool.true_and, bne_iff_ne]
  exact hne

end Prefixes

end CrashLab.Tenancy
