import CrashLab.OrderedMaps
import CrashLab.TenantKeys
import CrashLab.UriTexts

namespace CrashLab.Tenancy

open JsStrings JsonTexts UriTexts
open Std (ExtTreeMap)

abbrev BackfillStore := ExtTreeMap JsString Json

structure BackfillOptions where
  tenantOwnedPrefixes : List JsString
  dryRun : Option Bool := none
  orgId : Option JsString := none
  projectId : Option JsString := none

structure Move where
  from_ : JsString
  to_ : JsString
deriving DecidableEq

structure BackfillReport where
  dryRun : Bool
  target : JsString
  total : ℕ
  alreadyScoped : ℕ
  global : List JsString
  moves : List Move
  conflicts : List Move
deriving DecidableEq

inductive BackfillError where
  | storageKey (error : StorageKeyError)
  | malformedUri
deriving DecidableEq

def BackfillOptions.owns (options : BackfillOptions) (key : JsString) : Bool :=
  options.tenantOwnedPrefixes.any fun keyPrefix => keyPrefix.isPrefixOf key

def legacyPath : JsString := ofString "legacy"

def backfillTargetKey (legacyKey orgId projectId : JsString) : Except BackfillError JsString :=
  match tenantKeyPrefix orgId projectId with
  | .error error => .error (.storageKey error)
  | .ok keyPrefix =>
    match encodeURIComponent legacyKey with
    | none => .error .malformedUri
    | some encoded =>
      match joinTenantKey keyPrefix (legacyPath ++ slash :: encoded) with
      | .error error => .error (.storageKey error)
      | .ok to_ => .ok to_

def BackfillReport.visit (store : BackfillStore) (options : BackfillOptions) (orgId projectId : JsString)
    (report : BackfillReport) (key : JsString) : Except BackfillError BackfillReport :=
  let report := { report with total := report.total + 1 }
  if isTenantKey key then .ok { report with alreadyScoped := report.alreadyScoped + 1 }
  else if options.owns key = false then .ok { report with global := report.global ++ [key] }
  else
    match backfillTargetKey key orgId projectId with
    | .error error => .error error
    | .ok to_ =>
      if store[to_]?.isSome ∧ store[to_]?.map stringify ≠ store[key]?.map stringify then
        .ok { report with conflicts := report.conflicts ++ [⟨key, to_⟩] }
      else .ok { report with moves := report.moves ++ [⟨key, to_⟩] }

def BackfillStore.move (store : BackfillStore) (m : Move) : BackfillStore :=
  match store[m.from_]? with
  | some value => (store.insert m.to_ value).erase m.from_
  | none => (store.erase m.to_).erase m.from_

/-- The report, and the store as the call leaves it. A throw comes before the first move. -/
def runBackfill (store : BackfillStore) (options : BackfillOptions) :
    Except BackfillError (BackfillReport × BackfillStore) := do
  let dryRun := options.dryRun.getD true
  let orgId := options.orgId.getD defaultOrgId
  let projectId := options.projectId.getD defaultProjectId
  let target ← (tenantKeyPrefix orgId projectId).mapError .storageKey
  let report ← store.keys.foldlM (BackfillReport.visit store options orgId projectId) {
    dryRun := dryRun, target := target, total := 0, alreadyScoped := 0, global := [], moves := [], conflicts := [] }
  return (report, if dryRun then store else report.moves.foldl BackfillStore.move store)

def BackfillStore.undo (state : ℕ × BackfillStore) (m : Move) : ℕ × BackfillStore :=
  match state.2[m.to_]? with
  | none => state
  | some value => (state.1 + 1, (state.2.insert m.from_ value).erase m.to_)

def rollbackBackfill (store : BackfillStore) (report : BackfillReport) : ℕ × BackfillStore :=
  if report.dryRun then (0, store) else report.moves.reverse.foldl BackfillStore.undo (0, store)

section Targets

variable {key key' orgId projectId to_ : JsString}

theorem backfillTargetKey_eq_ok (h : backfillTargetKey key orgId projectId = .ok to_) :
    orgIdPattern orgId = true ∧ projectIdPattern projectId = true ∧
      ∃ encoded, encodeURIComponent key = some encoded ∧
        to_ = prefixText orgId projectId ++ (legacyPath ++ slash :: encoded) := by
  unfold backfillTargetKey at h
  split at h
  · cases h
  · next keyPrefix hstart =>
    obtain ⟨horg, hproject, rfl⟩ := tenantKeyPrefix_eq_ok.mp hstart
    refine ⟨horg, hproject, ?_⟩
    split at h
    · cases h
    · next encoded hencoded =>
      split at h
      · cases h
      · next key hkey =>
        obtain rfl := Except.ok.inj h
        exact ⟨encoded, hencoded, joinTenantKey_eq_ok hkey⟩

theorem isTenantKey_target (h : backfillTargetKey key orgId projectId = .ok to_) : isTenantKey to_ = true := by
  obtain ⟨horg, hproject, encoded, -, rfl⟩ := backfillTargetKey_eq_ok h
  exact isTenantKey_prefixText horg hproject (by decide) (by decide) encoded

theorem backfillTargetKey_injective (h : backfillTargetKey key orgId projectId = .ok to_)
    (h' : backfillTargetKey key' orgId projectId = .ok to_) : key = key' := by
  obtain ⟨-, -, encoded, hencoded, hto⟩ := backfillTargetKey_eq_ok h
  obtain ⟨-, -, encoded', hencoded', hto'⟩ := backfillTargetKey_eq_ok h'
  have hsame : encoded = encoded' := by
    rw [hto] at hto'
    exact List.cons_injective (List.append_cancel_left (List.append_cancel_left hto'))
  exact encodeURIComponent_injective hencoded (hsame ▸ hencoded')

end Targets

section Moves

/-- Moves that read and write apart: no key is left twice, none is reached twice, none is both. -/
structure Apart (moves : List Move) : Prop where
  sources : (moves.map Move.from_).Nodup
  targets : (moves.map Move.to_).Nodup
  disjoint : ∀ m ∈ moves, ∀ m' ∈ moves, m.from_ ≠ m'.to_

theorem Apart.tail {m : Move} {moves : List Move} (apart : Apart (m :: moves)) : Apart moves where
  sources := apart.sources.of_cons
  targets := apart.targets.of_cons
  disjoint := fun _ h _ h' => apart.disjoint _ (List.mem_cons_of_mem _ h) _ (List.mem_cons_of_mem _ h')

variable {store : BackfillStore}

theorem getElem?_move {m : Move} {value : Json} (hvalue : store[m.from_]? = some value) (key : JsString) :
    (store.move m)[key]? = if key = m.from_ then none else if key = m.to_ then some value else store[key]? := by
  unfold BackfillStore.move
  simp only [hvalue, ExtTreeMap.getElem?_erase, ExtTreeMap.getElem?_insert, Std.LawfulEqCmp.compare_eq_iff_eq,
    eq_comm (a := m.from_), eq_comm (a := m.to_)]

theorem getElem?_undo {m : Move} {count : ℕ} {value : Json} (hvalue : store[m.to_]? = some value) (key : JsString) :
    (BackfillStore.undo (count, store) m).2[key]? =
      if key = m.to_ then none else if key = m.from_ then some value else store[key]? := by
  unfold BackfillStore.undo
  simp only [hvalue, ExtTreeMap.getElem?_erase, ExtTreeMap.getElem?_insert, Std.LawfulEqCmp.compare_eq_iff_eq,
    eq_comm (a := m.from_), eq_comm (a := m.to_)]

theorem getElem?_undo_move {moves : List Move} (apart : Apart moves)
    (present : ∀ m ∈ moves, store[m.from_]?.isSome) (key : JsString) :
    (moves.reverse.foldl BackfillStore.undo (0, moves.foldl BackfillStore.move store)).2[key]? =
      if key ∈ moves.map Move.to_ then none else store[key]? := by
  induction moves generalizing store key with
  | nil => simp
  | cons m moves ih =>
    obtain ⟨value, hvalue⟩ := Option.isSome_iff_exists.mp (present m List.mem_cons_self)
    have hsource : m.from_ ∉ moves.map Move.from_ := (List.nodup_cons.mp apart.sources).1
    have htarget : m.to_ ∉ moves.map Move.to_ := (List.nodup_cons.mp apart.targets).1
    have hne : m.from_ ≠ m.to_ := apart.disjoint m List.mem_cons_self m List.mem_cons_self
    have hpresent : ∀ n ∈ moves, (store.move m)[n.from_]?.isSome := by
      intro n hn
      have hfrom : n.from_ ≠ m.from_ := fun h => hsource (h ▸ List.mem_map_of_mem hn)
      have hto : n.from_ ≠ m.to_ := apart.disjoint n (List.mem_cons_of_mem _ hn) m List.mem_cons_self
      rw [getElem?_move hvalue, if_neg hfrom, if_neg hto]
      exact present n (List.mem_cons_of_mem _ hn)
    have hrest := ih apart.tail hpresent
    rw [List.reverse_cons, List.foldl_append, List.foldl_cons, List.foldl_cons, List.foldl_nil]
    have hto := hrest m.to_
    rw [if_neg htarget, getElem?_move hvalue, if_neg hne.symm, if_pos rfl] at hto
    rw [getElem?_undo hto, hrest, getElem?_move hvalue]
    by_cases hkto : key = m.to_
    · simp [hkto]
    · by_cases hkfrom : key = m.from_
      · have hmem : m.from_ ∉ (m :: moves).map Move.to_ := by
          intro h
          obtain ⟨n, hn, h⟩ := List.mem_map.mp h
          exact apart.disjoint m List.mem_cons_self n hn h.symm
        rw [if_neg hkto, if_pos hkfrom, hkfrom, if_neg hmem, hvalue]
      · simp [hkto, hkfrom]

end Moves

section Scan

variable {store : BackfillStore} {options : BackfillOptions} {orgId projectId : JsString}

def BackfillOptions.moveOf (options : BackfillOptions) (store : BackfillStore) (orgId projectId key : JsString) :
    Option Move :=
  match backfillTargetKey key orgId projectId with
  | .error _ => none
  | .ok to_ =>
    if isTenantKey key = true ∨ options.owns key = false ∨
        store[to_]?.isSome ∧ store[to_]?.map stringify ≠ store[key]?.map stringify then none
    else some ⟨key, to_⟩

theorem moveOf_eq_some {key : JsString} {m : Move} (h : options.moveOf store orgId projectId key = some m) :
    m.from_ = key ∧ backfillTargetKey key orgId projectId = .ok m.to_ ∧ isTenantKey key = false := by
  unfold BackfillOptions.moveOf at h
  split at h
  · cases h
  · next to_ hto =>
    split_ifs at h with hkey
    obtain rfl := Option.some.inj h
    rw [not_or, Bool.not_eq_true] at hkey
    exact ⟨rfl, hto, hkey.1⟩

theorem moveOf_free {key : JsString} {m : Move} (h : options.moveOf store orgId projectId key = some m) :
    options.owns key = true ∧ (store[m.to_]? = none ∨ store[m.to_]? = store[key]?) := by
  unfold BackfillOptions.moveOf at h
  split at h
  · cases h
  · next to_ hto =>
    split_ifs at h with hkey
    obtain rfl := Option.some.inj h
    simp only [not_or, not_and, Bool.not_eq_false, not_not] at hkey
    refine ⟨hkey.2.1, ?_⟩
    cases hexisting : store[to_]? with
    | none => exact .inl rfl
    | some existing =>
      have hsame := hkey.2.2 (by rw [hexisting]; rfl)
      rw [(Option.map_injective stringify_injective).eq_iff, hexisting] at hsame
      exact .inr hsame

theorem visit_moves {report report' : BackfillReport} {key : JsString}
    (h : report.visit store options orgId projectId key = .ok report') :
    report'.moves = report.moves ++ (options.moveOf store orgId projectId key).toList ∧
      report'.dryRun = report.dryRun := by
  unfold BackfillReport.visit at h
  unfold BackfillOptions.moveOf
  split_ifs at h with htenant howned
  · obtain rfl := Except.ok.inj h
    cases backfillTargetKey key orgId projectId <;> simp [htenant]
  · obtain rfl := Except.ok.inj h
    cases backfillTargetKey key orgId projectId <;> simp [howned]
  · cases hto : backfillTargetKey key orgId projectId with
    | error error => simp [hto] at h
    | ok to_ =>
      simp only [hto] at h
      split_ifs at h with hconflict
      · obtain rfl := Except.ok.inj h
        dsimp only
        rw [if_pos (Or.inr (Or.inr hconflict))]
        exact ⟨(List.append_nil _).symm, rfl⟩
      · obtain rfl := Except.ok.inj h
        dsimp only
        rw [if_neg (not_or.mpr ⟨htenant, not_or.mpr ⟨howned, hconflict⟩⟩)]
        exact ⟨rfl, rfl⟩

theorem scan_moves {report report' : BackfillReport} {keys : List JsString}
    (h : keys.foldlM (BackfillReport.visit store options orgId projectId) report = .ok report') :
    report'.moves = report.moves ++ keys.filterMap (options.moveOf store orgId projectId) ∧
      report'.dryRun = report.dryRun := by
  induction keys generalizing report with
  | nil =>
    obtain rfl := Except.ok.inj h
    simp
  | cons key keys ih =>
    rw [List.foldlM_cons] at h
    cases hvisit : report.visit store options orgId projectId key with
    | error error =>
      rw [hvisit] at h
      cases h
    | ok next =>
      rw [hvisit] at h
      obtain ⟨hmoves, hdry⟩ := visit_moves hvisit
      obtain ⟨hrest, hdry'⟩ := ih h
      refine ⟨?_, hdry'.trans hdry⟩
      rw [hrest, hmoves, List.append_assoc]
      cases hkey : options.moveOf store orgId projectId key with
      | none => simp [hkey]
      | some m => simp [hkey]

theorem apart_scan (store : BackfillStore) (options : BackfillOptions) (orgId projectId : JsString) :
    Apart (store.keys.filterMap (options.moveOf store orgId projectId)) := by
  have hmem : ∀ m ∈ store.keys.filterMap (options.moveOf store orgId projectId),
      backfillTargetKey m.from_ orgId projectId = .ok m.to_ ∧ isTenantKey m.from_ = false := by
    intro m hm
    obtain ⟨key, -, hkey⟩ := List.mem_filterMap.mp hm
    obtain ⟨hfrom, hto, htenant⟩ := moveOf_eq_some hkey
    exact ⟨hfrom ▸ hto, hfrom ▸ htenant⟩
  have hsources : ((store.keys.filterMap (options.moveOf store orgId projectId)).map Move.from_).Nodup := by
    rw [List.map_filterMap]
    apply List.Nodup.filterMap _ ExtTreeMap.nodup_keys
    intro key key' from_ hkey hkey'
    obtain ⟨m, hm, rfl⟩ := Option.map_eq_some_iff.mp hkey
    obtain ⟨m', hm', hfrom⟩ := Option.map_eq_some_iff.mp hkey'
    rw [← (moveOf_eq_some hm).1, ← (moveOf_eq_some hm').1, hfrom]
  refine ⟨hsources, ?_, ?_⟩
  · apply List.Nodup.map_on _ hsources.of_map
    intro m hm m' hm' hto
    have hfrom : m.from_ = m'.from_ := backfillTargetKey_injective (hmem m hm).1 (hto ▸ (hmem m' hm').1)
    cases m
    cases m'
    simp_all
  · intro m hm m' hm' heq
    have htenant := isTenantKey_target (hmem m' hm').1
    rw [← heq, (hmem m hm).2] at htenant
    cases htenant

end Scan

def NoCopies (store : BackfillStore) (options : BackfillOptions) : Prop :=
  ∀ key ∈ store, isTenantKey key = false → options.owns key = true → ∀ to_,
    backfillTargetKey key (options.orgId.getD defaultOrgId) (options.projectId.getD defaultProjectId) = .ok to_ →
      store[to_]? ≠ store[key]?

theorem runBackfill_eq_ok {store moved : BackfillStore} {options : BackfillOptions} {report : BackfillReport}
    (applied : options.dryRun = some false) (returns : runBackfill store options = .ok (report, moved)) :
    report.dryRun = false ∧
      report.moves = store.keys.filterMap (options.moveOf store (options.orgId.getD defaultOrgId)
        (options.projectId.getD defaultProjectId)) ∧
      moved = report.moves.foldl BackfillStore.move store := by
  unfold runBackfill at returns
  simp only [applied, Option.getD_some] at returns
  cases htarget : (tenantKeyPrefix (options.orgId.getD defaultOrgId)
      (options.projectId.getD defaultProjectId)).mapError BackfillError.storageKey with
  | error error =>
    rw [htarget] at returns
    cases returns
  | ok target =>
    rw [htarget] at returns
    simp only [bind, Except.bind] at returns
    cases hscan : store.keys.foldlM (BackfillReport.visit store options (options.orgId.getD defaultOrgId)
        (options.projectId.getD defaultProjectId)) ⟨false, target, 0, 0, [], [], []⟩ with
    | error error =>
      rw [hscan] at returns
      cases returns
    | ok scanned =>
      rw [hscan] at returns
      obtain ⟨rfl, rfl⟩ := Prod.mk.inj (Except.ok.inj returns)
      obtain ⟨hmoves, hdry⟩ := scan_moves hscan
      exact ⟨hdry, hmoves, by simp⟩

theorem rollback_restores_iff {store moved : BackfillStore} {options : BackfillOptions} {report : BackfillReport}
    (applied : options.dryRun = some false) (returns : runBackfill store options = .ok (report, moved)) :
    (rollbackBackfill moved report).2 = store ↔ NoCopies store options := by
  obtain ⟨hdry, hmoves, rfl⟩ := runBackfill_eq_ok applied returns
  have hapart := apart_scan store options (options.orgId.getD defaultOrgId)
    (options.projectId.getD defaultProjectId)
  rw [← hmoves] at hapart
  have hpresent : ∀ m ∈ report.moves, store[m.from_]?.isSome := by
    intro m hm
    rw [hmoves] at hm
    obtain ⟨key, hkey, hof⟩ := List.mem_filterMap.mp hm
    rw [(moveOf_eq_some hof).1, ← ExtTreeMap.mem_iff_isSome_getElem?]
    exact ExtTreeMap.mem_keys.mp hkey
  have hget := getElem?_undo_move hapart hpresent
  rw [rollbackBackfill, hdry, if_neg Bool.false_ne_true]
  constructor
  · intro hrestored key hkey htenant howned to_ hto hcopy
    have hof : options.moveOf store (options.orgId.getD defaultOrgId)
        (options.projectId.getD defaultProjectId) key = some ⟨key, to_⟩ := by
      simp [BackfillOptions.moveOf, hto, htenant, howned, hcopy]
    have hmem : to_ ∈ report.moves.map Move.to_ := by
      rw [hmoves]
      exact List.mem_map_of_mem (List.mem_filterMap.mpr ⟨key, ExtTreeMap.mem_keys.mpr hkey, hof⟩)
    have hgone := hget to_
    rw [hrestored, if_pos hmem, hcopy] at hgone
    rw [ExtTreeMap.mem_iff_isSome_getElem?, hgone] at hkey
    cases hkey
  · intro hcopies
    apply ExtTreeMap.ext_getElem?
    intro key
    rw [hget]
    split_ifs with hmem
    · obtain ⟨m, hm, rfl⟩ := List.mem_map.mp hmem
      rw [hmoves] at hm
      obtain ⟨source, hsource, hof⟩ := List.mem_filterMap.mp hm
      obtain ⟨-, hto, htenant⟩ := moveOf_eq_some hof
      obtain ⟨howned, hfree⟩ := moveOf_free hof
      have hcopy := hcopies source (ExtTreeMap.mem_keys.mp hsource) htenant howned _ hto
      exact (hfree.resolve_right hcopy).symm
    · rfl

section Sample

def halfMoved : BackfillStore :=
  ((∅ : BackfillStore).insert (ofString "run:1") (.string (ofString "a"))).insert
    (ofString "org/org_default/project/prj_default/legacy/run%3A1") (.string (ofString "a"))

def runsOnly : BackfillOptions := { tenantOwnedPrefixes := [ofString "run:"], dryRun := some false }

theorem noCopies_of_free {store : BackfillStore} {options : BackfillOptions}
    (h : ∀ key ∈ store.keys, ∀ to_ ∈ (backfillTargetKey key (options.orgId.getD defaultOrgId)
      (options.projectId.getD defaultProjectId)).toOption, store[to_]?.isSome = false) : NoCopies store options := by
  intro key hkey htenant howned to_ hto hcopy
  have hfree := h key (ExtTreeMap.mem_keys.mpr hkey) to_ (by rw [hto]; rfl)
  rw [ExtTreeMap.mem_iff_isSome_getElem?, ← hcopy, hfree] at hkey
  cases hkey

def mixed : BackfillStore :=
  ((((∅ : BackfillStore).insert (ofString "run:1") (.string (ofString "a"))).insert
    (ofString "artifact:1") (.string (ofString "b"))).insert
    (ofString "settings") (.string (ofString "c"))).insert
    (ofString "org/org_abcdefghijklmnopqrstuvwxyz/project/prj_default/run:1") (.string (ofString "d"))

def runsAndArtifacts : BackfillOptions where
  tenantOwnedPrefixes := [ofString "run:", ofString "artifact:"]
  dryRun := some false

theorem mixed_restored : ∃ report moved, runBackfill mixed runsAndArtifacts = .ok (report, moved) ∧
    report.moves.map Move.from_ = [ofString "artifact:1", ofString "run:1"] ∧
    report.global = [ofString "settings"] ∧ report.alreadyScoped = 1 ∧ (rollbackBackfill moved report).2 = mixed := by
  have hlists : (runBackfill mixed runsAndArtifacts).toOption.map
      (fun result => (result.1.moves.map Move.from_, result.1.global, result.1.alreadyScoped)) =
        some ([ofString "artifact:1", ofString "run:1"], [ofString "settings"], 1) := by decide +kernel
  cases hrun : runBackfill mixed runsAndArtifacts with
  | error error =>
    rw [hrun] at hlists
    cases hlists
  | ok result =>
    rw [hrun] at hlists
    obtain ⟨hmoves, hrest⟩ := Prod.mk.inj (Option.some.inj hlists)
    obtain ⟨hglobal, hscoped⟩ := Prod.mk.inj hrest
    refine ⟨result.1, result.2, rfl, hmoves, hglobal, hscoped, (rollback_restores_iff rfl hrun).mpr ?_⟩
    apply noCopies_of_free
    decide +kernel

theorem rollback_restores_fails : ∃ report moved, runBackfill halfMoved runsOnly = .ok (report, moved) ∧
    (rollbackBackfill moved report).2 ≠ halfMoved := by
  cases hrun : runBackfill halfMoved runsOnly with
  | error error =>
    have hok : (runBackfill halfMoved runsOnly).isOk = true := by decide +kernel
    rw [hrun] at hok
    cases hok
  | ok result =>
    refine ⟨result.1, result.2, rfl, ?_⟩
    intro hrestored
    have hlost : ((runBackfill halfMoved runsOnly).toOption.map fun result =>
        (rollbackBackfill result.2 result.1).2.size) = some 1 := by decide +kernel
    rw [hrun] at hlost
    have hsize : (rollbackBackfill result.2 result.1).2.size = 1 := Option.some.inj hlost
    rw [hrestored] at hsize
    have htwo : halfMoved.size = 2 := by decide +kernel
    omega

end Sample

end CrashLab.Tenancy
