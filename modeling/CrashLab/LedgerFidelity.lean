import Mathlib.Data.List.ReduceOption
import CrashLab.LedgerDiff

namespace CrashLab.LedgerDiff

open Fallible Idempotency JsStrings JsonTexts KeyedLists

section Alike

def Alike (before after : Json) : Prop :=
  ∀ key ∈ (properties before).map Prod.fst ++ (properties after).map Prod.fst, ∃ v w, ownProperty before key = some v ∧
    ownProperty after key = some w ∧ jsonStringify v = jsonStringify w

theorem ownProperty_of_mem {value : Json} {key : JsString} (h : key ∈ (properties value).map Prod.fst) :
    ∃ v, ownProperty value key = some v := by
  rw [ownProperty]
  cases hget : get Prod.fst key (properties value) with
  | some property => exact ⟨_, rfl⟩
  | none =>
    obtain ⟨property, hmem, heq⟩ := List.mem_map.mp h
    exact absurd heq (get_eq_none.mp hget property hmem)

theorem diffField_unchanged_iff {nested : Json → Json → Except TypeError (List DiffField × Bool)} {before after : Json}
    {key : JsString} {field : DiffField} (hfield : diffField nested before after key = .ok field)
    (hkey : key ∈ (properties before).map Prod.fst ++ (properties after).map Prod.fst) :
    field.type = .unchanged ↔ ∃ v w, ownProperty before key = some v ∧ ownProperty after key = some w ∧
      jsonStringify v = jsonStringify w := by
  unfold diffField at hfield
  cases hbefore : ownProperty before key with
  | none =>
    cases hafter : ownProperty after key with
    | none =>
      exfalso
      rcases List.mem_append.mp hkey with hmem | hmem
      · obtain ⟨v, hv⟩ := ownProperty_of_mem hmem
        rw [hbefore] at hv
        cases hv
      · obtain ⟨v, hv⟩ := ownProperty_of_mem hmem
        rw [hafter] at hv
        cases hv
    | some w =>
      rw [hbefore, hafter] at hfield
      cases hfield
      simp
  | some v =>
    cases hafter : ownProperty after key with
    | none =>
      rw [hbefore, hafter] at hfield
      cases hfield
      simp
    | some w =>
      rw [hbefore, hafter] at hfield
      dsimp only at hfield
      by_cases hdiffer : jsonStringify v = jsonStringify w
      · rw [if_neg (not_not.mpr hdiffer)] at hfield
        cases hfield
        exact ⟨fun _ => ⟨v, w, rfl, rfl, hdiffer⟩, fun _ => rfl⟩
      · have hnot : ¬∃ v' w', some v = some v' ∧ some w = some w' ∧ jsonStringify v' = jsonStringify w' := by
          rintro ⟨v', w', hv, hw, heq⟩
          cases hv
          cases hw
          exact hdiffer heq
        rw [if_pos hdiffer] at hfield
        split_ifs at hfield
        · obtain ⟨r, -, hr⟩ := bind_eq_ok.mp hfield
          cases hr
          exact ⟨fun h => DiffOpType.noConfusion h, fun h => absurd h hnot⟩
        · cases hfield
          exact ⟨fun h => DiffOpType.noConfusion h, fun h => absurd h hnot⟩

theorem keys_eq_ok {value : Json} {ks : List JsString} (h : keys value = .ok ks) : ks = (properties value).map Prod.fst := by
  cases value with
  | null => cases h
  | _ =>
    cases h
    rfl

theorem all_unchanged_iff {nested : Json → Json → Except TypeError (List DiffField × Bool)} {before after : Json}
    {ks : List JsString} {fields : List DiffField}
    (hall : List.Forall₂ (fun key field => diffField nested before after key = .ok field) ks fields)
    (hsub : ∀ key ∈ ks, key ∈ (properties before).map Prod.fst ++ (properties after).map Prod.fst) :
    (∀ field ∈ fields, field.type = .unchanged) ↔ ∀ key ∈ ks, ∃ v w, ownProperty before key = some v ∧
      ownProperty after key = some w ∧ jsonStringify v = jsonStringify w := by
  induction hall with
  | nil => simp
  | @cons key field ks fields hfield _ ih =>
    rw [List.forall_mem_cons] at hsub ⊢
    rw [List.forall_mem_cons, diffField_unchanged_iff hfield hsub.1, ih hsub.2]

theorem diffObjects_unchanged_iff {levels : ℕ} {before after : Json} {fields : List DiffField} {parseFailed : Bool}
    (h : diffObjects (levels + 1) before after = .ok (fields, parseFailed)) :
    fields.countP (fun field => field.type ≠ .unchanged) = 0 ↔ Alike before after := by
  rw [diffObjects] at h
  obtain ⟨beforeKeys, hbefore, h⟩ := bind_eq_ok.mp h
  obtain ⟨afterKeys, hafter, h⟩ := bind_eq_ok.mp h
  obtain ⟨fields', hfields, h⟩ := bind_eq_ok.mp h
  cases h
  obtain rfl := keys_eq_ok hbefore
  obtain rfl := keys_eq_ok hafter
  let allKeys := (properties before).map Prod.fst ++
    ((properties after).map Prod.fst).filter (· ∉ (properties before).map Prod.fst)
  have hall : List.Forall₂ (fun key field => diffField (diffObjects levels) before after key = .ok field) allKeys fields :=
    mapM_eq_ok.mp hfields
  have hkeys (key : JsString) : key ∈ allKeys ↔ key ∈ (properties before).map Prod.fst ++ (properties after).map Prod.fst := by
    simp only [allKeys, List.mem_append, List.mem_filter, decide_eq_true_eq]
    tauto
  have hunchanged := all_unchanged_iff hall fun key => (hkeys key).mp
  rw [List.countP_eq_zero]
  simp only [decide_eq_true_eq, not_not]
  rw [hunchanged, Alike]
  exact forall_congr' fun key => by rw [hkeys]

end Alike

section Reports

theorem compareEntries_unchanged_iff {key : JsString} {leftEntry rightEntry : LedgerStateChange} {op : DiffOperation}
    (h : compareEntries key leftEntry rightEntry = .ok op) : op.ledgerKey = key ∧ (op.type = .unchanged ↔
      leftEntry.changeType = rightEntry.changeType ∧
        Alike (parseValue leftEntry.before).compared (parseValue rightEntry.after).compared) := by
  obtain ⟨⟨fields, parseFailed⟩, hfields, h⟩ := bind_eq_ok.mp h
  cases h
  refine ⟨rfl, Iff.trans ?_ (and_comm.trans (and_congr_right fun _ => diffObjects_unchanged_iff hfields))⟩
  dsimp only
  split_ifs with hunchanged hcreated hdeleted
  · exact iff_of_true rfl hunchanged
  · exact iff_of_false (fun h => h) hunchanged
  · exact iff_of_false (fun h => h) hunchanged
  · exact iff_of_false (fun h => h) hunchanged

theorem ledgerKey_of_diffEntry {left right : RunSnapshot} {key : JsString} {op : DiffOperation}
    (h : diffEntry left right key = .ok (some op)) : op.ledgerKey = key := by
  unfold diffEntry at h
  split at h
  · cases h
    rfl
  · cases h
    rfl
  · next leftEntry rightEntry _ _ =>
    cases hcompare : compareEntries key leftEntry rightEntry with
    | error e =>
      rw [hcompare] at h
      cases h
    | ok op' =>
      rw [hcompare] at h
      cases h
      exact (compareEntries_unchanged_iff hcompare).1
  · cases h

def ReportedUnchanged (result : DiffResult) (id : JsString) : Prop :=
  ∃ op ∈ result.operations, op.ledgerKey = id ∧ op.type = .unchanged

variable {left right : RunSnapshot} {result : DiffResult} {id : JsString} {leftEntry rightEntry : LedgerStateChange}

theorem reportedUnchanged_iff_alike (hcompatible : (checkComparability left right).compatible = true)
    (hresult : diffLedgerSnapshots left right = .ok result) (hleft : entryAt left id = some leftEntry)
    (hright : entryAt right id = some rightEntry) : ReportedUnchanged result id ↔
      leftEntry.changeType = rightEntry.changeType ∧
        Alike (parseValue leftEntry.before).compared (parseValue rightEntry.after).compared := by
  rw [diffLedgerSnapshots, if_pos hcompatible] at hresult
  obtain ⟨operations, hoperations, h⟩ := bind_eq_ok.mp hresult
  cases h
  have hmem (op : DiffOperation) : op ∈ operations.reduceOption ↔
      ∃ key ∈ sortedKeys left right, diffEntry left right key = .ok (some op) := by
    rw [List.reduceOption_mem_iff, mem_of_mapM hoperations]
  have hentry : diffEntry left right id = some <$> compareEntries id leftEntry rightEntry := by
    rw [diffEntry, hleft, hright]
  obtain ⟨op, hop⟩ : ∃ op, compareEntries id leftEntry rightEntry = .ok op :=
    (compareEntries_ok_iff id _ _).mpr ((diffLedgerSnapshots_returns_iff hcompatible).mp ⟨_, by
      rw [diffLedgerSnapshots, if_pos hcompatible]
      exact hresult⟩ id _ _ hleft hright)
  rw [hop] at hentry
  rw [← (compareEntries_unchanged_iff hop).2]
  constructor
  · rintro ⟨op', hop', hid, hunchanged⟩
    obtain ⟨key, -, hkey⟩ := (hmem op').mp hop'
    obtain rfl : key = id := (ledgerKey_of_diffEntry hkey).symm.trans hid
    rw [hentry] at hkey
    cases hkey
    exact hunchanged
  · intro hunchanged
    have hsorted : id ∈ sortedKeys left right := by
      obtain ⟨hentry, hid⟩ := mem_of_entryAt hleft
      exact mem_sortedKeys.mpr ⟨leftEntry, List.mem_append_left _ hentry, hid⟩
    exact ⟨op, (hmem op).mpr ⟨id, hsorted, hentry⟩, (compareEntries_unchanged_iff hop).1, hunchanged⟩

end Reports

section Equality

mutual

theorem same_refl (a : Json) : Same a a := by
  match a with
  | .null => rfl
  | .bool _ => rfl
  | .number _ => rfl
  | .string _ => rfl
  | .array items =>
    rw [Same]
    exact sameItems_refl items
  | .object members =>
    rw [Same]
    exact ⟨rfl, sameMembers_of_subset members members fun _ h => h⟩

theorem sameItems_refl (items : List Json) : SameItems items items := by
  match items with
  | [] => trivial
  | item :: items => exact ⟨same_refl item, sameItems_refl items⟩

theorem sameMembers_of_subset (members members' : List (JsString × Json)) (h : ∀ member ∈ members, member ∈ members') :
    SameMembers members members' := by
  match members with
  | [] => trivial
  | (key, value) :: members =>
    rw [List.forall_mem_cons] at h
    exact ⟨⟨value, h.1, same_refl value⟩, sameMembers_of_subset members members' h.2⟩

end

theorem typeOf_eq_of_same {a b : Json} (h : Same a b) : typeOf a = typeOf b := by
  cases a <;> cases b <;> first | rfl | exact absurd h (by simp [Same])

def Overflows (value : Json) : Prop := written value ≠ value

theorem writtenItems_eq_map (items : List Json) : writtenItems items = items.map written := by
  induction items with
  | nil => rfl
  | cons item items ih => rw [writtenItems, ih, List.map_cons]

theorem writtenMembers_eq_map (members : List (JsString × Json)) :
    writtenMembers members = members.map fun member => (member.1, written member.2) := by
  induction members with
  | nil => rfl
  | cons member members ih =>
    obtain ⟨key, value⟩ := member
    rw [writtenMembers, ih, List.map_cons]

theorem eq_of_map_eq_self {α : Type} {f : α → α} {l : List α} (h : l.map f = l) : ∀ a ∈ l, f a = a := by
  intro a ha
  obtain ⟨i, hi, rfl⟩ := List.getElem_of_mem ha
  have := List.getElem_of_eq h (by rwa [List.length_map])
  rwa [List.getElem_map] at this

theorem written_property {value : Json} (h : ¬Overflows value) {property : JsString × Json}
    (hmem : property ∈ properties value) : written property.2 = property.2 := by
  rw [Overflows, not_not] at h
  cases value with
  | string s =>
    obtain ⟨i, hi, rfl⟩ := List.mem_mapIdx.mp hmem
    rfl
  | array items =>
    obtain ⟨i, hi, rfl⟩ := List.mem_mapIdx.mp hmem
    rw [written, writtenItems_eq_map, Json.array.injEq] at h
    exact eq_of_map_eq_self h _ (List.getElem_mem hi)
  | object members =>
    rw [written, writtenMembers_eq_map, Json.object.injEq] at h
    exact (Prod.ext_iff.mp (eq_of_map_eq_self h property hmem)).2
  | _ => cases hmem

theorem indexKey_injective : Function.Injective indexKey := by
  intro i j h
  exact Digest.toString_injective (ofString_injective h)

theorem indexKey_ne_length (i : ℕ) : indexKey i ≠ text "length" := by
  intro h
  have hchars : Nat.toDigits 10 i = ['l', 'e', 'n', 'g', 't', 'h'] := String.ofList_injective (ofString_injective h)
  have hdigit : 'l'.isDigit = true := by
    apply Nat.isDigit_of_mem_toDigits (b := 10) (n := i) (by norm_num) (by norm_num)
    rw [hchars]
    exact List.mem_cons_self
  cases hdigit

theorem uniqueKeys_fromEntries (members : List (JsString × Json)) : UniqueKeys Prod.fst (fromEntries members) := by
  have hset : ∀ start : List (JsString × Json), UniqueKeys Prod.fst start →
      UniqueKeys Prod.fst (members.foldl setMember start) := by
    induction members with
    | nil => exact fun start h => h
    | cons member members ih =>
      intro start hstart
      apply ih
      rw [setMember]
      split_ifs with hany
      · exact hstart.replace member
      · rw [UniqueKeys, List.map_append]
        refine List.nodup_append.mpr ⟨hstart, List.nodup_singleton _, ?_⟩
        intro key hkey key' hkey' heq
        obtain ⟨other, hother, rfl⟩ := List.mem_map.mp hkey
        rw [List.map_singleton, List.mem_singleton] at hkey'
        exact hany (List.any_eq_true.mpr ⟨other, hother, decide_eq_true (heq.trans hkey')⟩)
  exact ((indicesFirst_perm _).map Prod.fst).nodup_iff.mpr (hset [] List.nodup_nil)

theorem nodup_indexKeys {α : Type} (f : ℕ → α → JsString × Json) (hf : ∀ i a, (f i a).1 = indexKey i) (l : List α) :
    UniqueKeys Prod.fst (l.mapIdx f) := by
  have hkeys : (l.mapIdx f).map Prod.fst = (List.range l.length).map indexKey := by
    apply List.ext_getElem
    · simp
    · intro i hi hi'
      simp [hf]
  rw [UniqueKeys, hkeys]
  exact List.nodup_range.map indexKey_injective

theorem uniqueKeys_compared (raw : Option JsString) : UniqueKeys Prod.fst (properties (parseValue raw).compared) := by
  have hloaded (value : Json) : UniqueKeys Prod.fst (properties (loaded value)) := by
    cases value with
    | string s => exact nodup_indexKeys _ (fun _ _ => rfl) s
    | array items => exact nodup_indexKeys _ (fun _ _ => rfl) (loadedItems items)
    | object members => exact uniqueKeys_fromEntries (loadedMembers members)
    | _ => exact List.nodup_nil
  match raw with
  | none => exact List.nodup_nil
  | some [] => exact List.nodup_nil
  | some (u :: raw) =>
    simp only [parseValue, jsonParse]
    cases parse (characters false (u :: raw)) with
    | some parsed => exact hloaded parsed
    | none =>
      simp only [Option.map_none]
      split_ifs
      · exact nodup_indexKeys _ (fun _ _ => rfl) (u :: raw)
      · exact List.nodup_nil

theorem Alike.symm {a b : Json} (h : Alike a b) : Alike b a := by
  intro key hkey
  obtain ⟨v, w, hv, hw, heq⟩ := h key (List.mem_append.mpr (List.mem_append.mp hkey).symm)
  exact ⟨w, v, hw, hv, heq.symm⟩

theorem ne_length_of_mem {a : Json} {n : ℕ} (hlength : lengthOf a = some n) {property : JsString × Json}
    (hmem : property ∈ properties a) : property.1 ≠ text "length" := by
  cases a with
  | string s =>
    obtain ⟨i, hi, rfl⟩ := List.mem_mapIdx.mp hmem
    exact indexKey_ne_length i
  | array items =>
    obtain ⟨i, hi, rfl⟩ := List.mem_mapIdx.mp hmem
    exact indexKey_ne_length i
  | _ => cases hlength

theorem lengthOf_of_typeOf_eq {a b : Json} (h : typeOf a = typeOf b) {n : ℕ} (hlength : lengthOf b = some n) :
    ∃ m, lengthOf a = some m := by
  cases b with
  | string s =>
    cases a with
    | string s' => exact ⟨_, rfl⟩
    | _ => cases h
  | array items =>
    cases a with
    | array items' => exact ⟨_, rfl⟩
    | _ => cases h
  | _ => cases hlength

theorem Alike.property {a b : Json} (halike : Alike a b) (hkind : typeOf a = typeOf b)
    (hunique : UniqueKeys Prod.fst (properties a)) {key : JsString} {v : Json} (hmem : (key, v) ∈ properties a) :
    ∃ w, (key, w) ∈ properties b ∧ jsonStringify v = jsonStringify w := by
  obtain ⟨v', w, hv, hw, heq⟩ := halike key (List.mem_append_left _ (List.mem_map_of_mem hmem))
  have hget : get Prod.fst key (properties a) = some (key, v) := hunique.get_eq hmem
  rw [ownProperty, hget, Option.some_inj] at hv
  subst hv
  refine ⟨w, ?_, heq⟩
  rw [ownProperty] at hw
  cases hfound : get Prod.fst key (properties b) with
  | some property =>
    obtain ⟨hproperty, hkey⟩ := mem_of_get hfound
    rw [hfound, Option.some_inj] at hw
    rwa [← hkey, ← hw]
  | none =>
    rw [hfound] at hw
    dsimp only at hw
    split_ifs at hw with hlength
    obtain ⟨n, hn, -⟩ := Option.map_eq_some_iff.mp hw
    obtain ⟨m, hm⟩ := lengthOf_of_typeOf_eq hkind hn
    exact absurd hlength (ne_length_of_mem hm hmem)

theorem Alike.perm {a b : Json} (halike : Alike a b) (hkind : typeOf a = typeOf b)
    (hunique : UniqueKeys Prod.fst (properties a)) (hunique' : UniqueKeys Prod.fst (properties b))
    (hfinite : ¬Overflows a) (hfinite' : ¬Overflows b) : (properties a).Perm (properties b) := by
  have hsub {a b : Json} (halike : Alike a b) (hkind : typeOf a = typeOf b)
      (hunique : UniqueKeys Prod.fst (properties a)) (hfinite : ¬Overflows a) (hfinite' : ¬Overflows b) :
      ∀ property ∈ properties a, property ∈ properties b := by
    rintro ⟨key, v⟩ hmem
    obtain ⟨w, hw, heq⟩ := halike.property hkind hunique hmem
    have hwritten := stringify_injective heq
    have hv : written v = v := written_property hfinite hmem
    have hw' : written w = w := written_property hfinite' hw
    rw [hv, hw'] at hwritten
    rwa [hwritten]
  rw [List.perm_ext_iff_of_nodup (List.Nodup.of_map Prod.fst hunique) (List.Nodup.of_map Prod.fst hunique')]
  exact fun property => ⟨hsub halike hkind hunique hfinite hfinite' property,
    hsub halike.symm hkind.symm hunique' hfinite' hfinite property⟩

theorem mem_indexed_iff {α : Type} {g : α → Json} (hg : Function.Injective g) {l : List α} {i : ℕ} {a : α} :
    (indexKey i, g a) ∈ l.mapIdx (fun index a => (indexKey index, g a)) ↔ l[i]? = some a := by
  rw [List.mem_mapIdx, List.getElem?_eq_some_iff]
  constructor
  · rintro ⟨j, hj, heq⟩
    obtain ⟨hkey, hvalue⟩ := Prod.mk.inj heq
    obtain rfl := indexKey_injective hkey
    exact ⟨hj, hg hvalue⟩
  · rintro ⟨hi, rfl⟩
    exact ⟨i, hi, rfl⟩

theorem eq_of_indexed_perm {α : Type} {g : α → Json} (hg : Function.Injective g) {l l' : List α}
    (h : (l.mapIdx fun index a => (indexKey index, g a)).Perm (l'.mapIdx fun index a => (indexKey index, g a))) : l = l' := by
  apply List.ext_getElem?
  intro i
  apply Option.ext
  intro a
  rw [← mem_indexed_iff hg, ← mem_indexed_iff hg]
  exact h.mem_iff

theorem same_of_alike {a b : Json} (halike : Alike a b) (hkind : typeOf a = typeOf b)
    (htype : typeOf a = .string ∨ typeOf a = .array ∨ typeOf a = .object)
    (hunique : UniqueKeys Prod.fst (properties a)) (hunique' : UniqueKeys Prod.fst (properties b))
    (hfinite : ¬Overflows a) (hfinite' : ¬Overflows b) : Same a b := by
  have hperm := halike.perm hkind hunique hunique' hfinite hfinite'
  cases a with
  | string s =>
    cases b with
    | string s' =>
      have hs : s = s' := eq_of_indexed_perm (fun u u' h => (List.cons.inj (Json.string.inj h)).1) hperm
      rw [hs]
      exact same_refl _
    | _ => cases hkind
  | array items =>
    cases b with
    | array items' =>
      have hitems : items = items' := eq_of_indexed_perm Function.injective_id hperm
      rw [hitems]
      exact same_refl _
    | _ => cases hkind
  | object members =>
    cases b with
    | object members' =>
      have hperm' : members.Perm members' := hperm
      rw [Same]
      exact ⟨hperm'.length_eq, sameMembers_of_subset members members' fun _ => hperm'.mem_iff.mp⟩
    | _ => cases hkind
  | _ => simp [typeOf] at htype

end Equality

section Judgement

def kind (parsed : ParsedValue) : Option ValueType := if parsed.parseFailed then none else some (typeOf parsed.value)

def Scalar (parsed : ParsedValue) : Prop :=
  kind parsed = none ∨ kind parsed = some .boolean ∨ kind parsed = some .number

inductive Misjudged (before after : ParsedValue) : Prop
  /-- Values of two kinds that have the same fields, such as a number and an empty object. -/
  | kinds (hkind : kind before ≠ kind after) (halike : Alike before.compared after.compared)
  /-- Values without fields. -/
  | scalars (hkind : kind before = kind after) (hscalar : Scalar before) (hdiffer : before.value ≠ after.value)
  /-- A nested object lists its keys in another order. -/
  | reordered (hsame : Same before.value after.value) (hunlike : ¬Alike before.compared after.compared)
  /-- A number past the largest double is written as `null`. -/
  | overflow (hkind : kind before = kind after) (halike : Alike before.compared after.compared)
      (hdiffer : ¬Same before.value after.value) (hoverflow : Overflows before.value ∨ Overflows after.value)

theorem parseFailed_value {raw : Option JsString} (h : (parseValue raw).parseFailed = true) :
    ∃ u s, (parseValue raw).value = .string (u :: s) := by
  match raw with
  | none => cases h
  | some [] => cases h
  | some (u :: s) =>
    simp only [parseValue] at h ⊢
    cases hparse : jsonParse (u :: s) with
    | some parsed =>
      rw [hparse] at h
      cases h
    | none =>
      refine ⟨u, s, ?_⟩
      dsimp only
      split_ifs
      · rfl
      · rfl

theorem eq_string_of_same {a : Json} {s : JsString} (h : Same a (.string s) ∨ Same (.string s) a) : a = .string s := by
  cases a with
  | string s' =>
    simp only [Same, Json.string.injEq] at h
    rcases h with rfl | rfl
    · rfl
    · rfl
  | _ => simp [Same] at h

theorem not_alike_string (u : UInt16) (s : JsString) : ¬Alike (.object []) (.string (u :: s)) := by
  intro h
  obtain ⟨v, w, hv, -, -⟩ := h (indexKey 0) (by simp [properties])
  simp [ownProperty, properties, KeyedLists.get, lengthOf] at hv

variable {raw raw' : Option JsString}

theorem kind_eq_of_same (hsame : Same (parseValue raw).value (parseValue raw').value)
    (halike : Alike (parseValue raw).compared (parseValue raw').compared) :
    kind (parseValue raw) = kind (parseValue raw') := by
  unfold kind
  unfold ParsedValue.compared at halike
  cases hfailed : (parseValue raw).parseFailed with
  | true =>
    cases hfailed' : (parseValue raw').parseFailed with
    | true => rfl
    | false =>
      exfalso
      obtain ⟨u, s, hvalue⟩ := parseFailed_value hfailed
      rw [hvalue] at hsame
      rw [hfailed, hfailed', eq_string_of_same (.inr hsame)] at halike
      exact not_alike_string u s halike
  | false =>
    cases hfailed' : (parseValue raw').parseFailed with
    | true =>
      exfalso
      obtain ⟨u, s, hvalue⟩ := parseFailed_value hfailed'
      rw [hvalue] at hsame
      rw [hfailed, hfailed', eq_string_of_same (.inl hsame)] at halike
      exact not_alike_string u s halike.symm
    | false => exact congrArg some (typeOf_eq_of_same hsame)

theorem properties_scalar (h : Scalar (parseValue raw)) : properties (parseValue raw).compared = [] := by
  unfold Scalar kind at h
  unfold ParsedValue.compared
  cases hfailed : (parseValue raw).parseFailed with
  | true => rfl
  | false =>
    rw [hfailed] at h
    cases hvalue : (parseValue raw).value with
    | bool _ => rfl
    | number _ => rfl
    | null => rfl
    | _ =>
      rw [hvalue] at h
      simp [typeOf] at h

theorem eq_of_same_scalar (h : Scalar (parseValue raw)) (hsame : Same (parseValue raw).value (parseValue raw').value) :
    (parseValue raw).value = (parseValue raw').value := by
  unfold Scalar kind at h
  cases hfailed : (parseValue raw).parseFailed with
  | true =>
    obtain ⟨u, s, hvalue⟩ := parseFailed_value hfailed
    rw [hvalue] at hsame ⊢
    exact (eq_string_of_same (.inr hsame)).symm
  | false =>
    rw [hfailed] at h
    cases hvalue : (parseValue raw).value with
    | array _ =>
      rw [hvalue] at h
      simp [typeOf] at h
    | object _ =>
      rw [hvalue] at h
      simp [typeOf] at h
    | _ =>
      rw [hvalue] at hsame
      simpa [Same] using hsame

theorem same_of_alike_fielded (hpresent : (parseValue raw).compared ≠ .null)
    (hkind : kind (parseValue raw) = kind (parseValue raw'))
    (hscalar : ¬Scalar (parseValue raw)) (halike : Alike (parseValue raw).compared (parseValue raw').compared)
    (hfinite : ¬Overflows (parseValue raw).value) (hfinite' : ¬Overflows (parseValue raw').value) :
    Same (parseValue raw).value (parseValue raw').value := by
  have hunique := uniqueKeys_compared raw
  have hunique' := uniqueKeys_compared raw'
  unfold Scalar at hscalar
  push Not at hscalar
  obtain ⟨hsome, hboolean, hnumber⟩ := hscalar
  have hfailed : (parseValue raw).parseFailed = false := by
    by_contra htrue
    rw [Bool.not_eq_false] at htrue
    exact hsome (by rw [kind, htrue]; rfl)
  have hfailed' : (parseValue raw').parseFailed = false := by
    by_contra htrue
    rw [Bool.not_eq_false] at htrue
    exact hsome (hkind.trans (by rw [kind, htrue]; rfl))
  have hcompared : (parseValue raw).compared = (parseValue raw).value := by simp [ParsedValue.compared, hfailed]
  have hcompared' : (parseValue raw').compared = (parseValue raw').value := by simp [ParsedValue.compared, hfailed']
  rw [hcompared] at hunique hpresent
  rw [hcompared'] at hunique'
  rw [hcompared, hcompared'] at halike
  simp only [kind, hfailed, hfailed', Bool.false_eq_true, if_false, Option.some_inj, ne_eq] at hkind hboolean hnumber
  refine same_of_alike halike hkind ?_ hunique hunique' hfinite hfinite'
  cases hvalue : (parseValue raw).value with
  | null => exact absurd hvalue hpresent
  | bool _ => simp [hvalue, typeOf] at hboolean
  | number _ => simp [hvalue, typeOf] at hnumber
  | string _ => exact .inl rfl
  | array _ => exact .inr (.inl rfl)
  | object _ => exact .inr (.inr rfl)

theorem alike_iff_same_iff (hpresent : (parseValue raw).compared ≠ .null) :
    (Alike (parseValue raw).compared (parseValue raw').compared ↔
      Same (parseValue raw).value (parseValue raw').value) ↔ ¬Misjudged (parseValue raw) (parseValue raw') := by
  constructor
  · rintro h (⟨hkind, halike⟩ | ⟨hkind, hscalar, hdiffer⟩ | ⟨hsame, hunlike⟩ | ⟨-, halike, hdiffer, -⟩)
    · exact hkind (kind_eq_of_same (h.mp halike) halike)
    · have hscalar' : Scalar (parseValue raw') := by
        unfold Scalar at hscalar ⊢
        rwa [← hkind]
      have halike : Alike (parseValue raw).compared (parseValue raw').compared := by
        unfold Alike
        rw [properties_scalar hscalar, properties_scalar hscalar']
        intro key hkey
        cases hkey
      exact hdiffer (eq_of_same_scalar hscalar (h.mp halike))
    · exact hunlike (h.mpr hsame)
    · exact hdiffer (h.mp halike)
  · intro hnot
    constructor
    · intro halike
      by_contra hdiffer
      by_cases hkind : kind (parseValue raw) = kind (parseValue raw')
      · by_cases hscalar : Scalar (parseValue raw)
        · apply hnot
          apply Misjudged.scalars hkind hscalar
          intro heq
          rw [heq] at hdiffer
          exact hdiffer (same_refl _)
        · by_cases hoverflow : Overflows (parseValue raw).value ∨ Overflows (parseValue raw').value
          · exact hnot (.overflow hkind halike hdiffer hoverflow)
          · rw [not_or] at hoverflow
            exact hdiffer (same_of_alike_fielded hpresent hkind hscalar halike hoverflow.1 hoverflow.2)
      · exact hnot (.kinds hkind halike)
    · intro hsame
      by_contra hunlike
      exact hnot (.reordered hsame hunlike)

theorem reported_unchanged_iff {left right : RunSnapshot} {result : DiffResult} {id : JsString}
    {leftEntry rightEntry : LedgerStateChange} (hcompatible : (checkComparability left right).compatible = true)
    (hresult : diffLedgerSnapshots left right = .ok result) (hleft : entryAt left id = some leftEntry)
    (hright : entryAt right id = some rightEntry) :
    (ReportedUnchanged result id ↔ leftEntry.changeType = rightEntry.changeType ∧
        Same (parseValue leftEntry.before).value (parseValue rightEntry.after).value) ↔
      ¬(leftEntry.changeType = rightEntry.changeType ∧
        Misjudged (parseValue leftEntry.before) (parseValue rightEntry.after)) := by
  have hpresent : (parseValue leftEntry.before).compared ≠ .null := by
    rw [ne_eq, compared_parseValue_eq_null]
    exact ((diffLedgerSnapshots_returns_iff hcompatible).mp ⟨result, hresult⟩ id _ _ hleft hright).1
  rw [reportedUnchanged_iff_alike hcompatible hresult hleft hright, not_and, ← alike_iff_same_iff hpresent]
  exact and_congr_right_iff

end Judgement

section Sample

def flagChange (before after : String) : LedgerStateChange where
  id := text "paused"
  entryType := text "ContractData"
  changeType := .updated
  before := some (text before)
  after := some (text after)

def flagRun (runId before after : String) : RunSnapshot where
  runId := text runId
  contractId := text "contract-123"
  schemaHash := text "sha256:abc123"
  ledgerState := [flagChange before after]

theorem flagRuns_result : ∃ result,
    diffLedgerSnapshots (flagRun "run-1" "true" "true") (flagRun "run-2" "true" "false") = .ok result ∧
      ReportedUnchanged result (text "paused") := by
  refine ⟨_, rfl, ?_⟩
  exact ⟨_, List.mem_cons_self, rfl, rfl⟩

theorem flagRuns_unchanged_iff : ∃ result,
    diffLedgerSnapshots (flagRun "run-1" "true" "true") (flagRun "run-2" "true" "false") = .ok result ∧
      ((ReportedUnchanged result (text "paused") ↔ LedgerChangeType.updated = .updated ∧
        Same (parseValue (some (text "true"))).value (parseValue (some (text "false"))).value) ↔
      ¬(LedgerChangeType.updated = .updated ∧
        Misjudged (parseValue (some (text "true"))) (parseValue (some (text "false"))))) := by
  obtain ⟨result, hresult, -⟩ := flagRuns_result
  exact ⟨result, hresult, @reported_unchanged_iff _ _ _ (text "paused") (flagChange "true" "true") (flagChange "true" "false")
    (by decide +kernel) hresult rfl rfl⟩

theorem flagRuns_misreported : (checkComparability (flagRun "run-1" "true" "true")
      (flagRun "run-2" "true" "false")).compatible = true ∧
    entryAt (flagRun "run-1" "true" "true") (text "paused") = some (flagChange "true" "true") ∧
    entryAt (flagRun "run-2" "true" "false") (text "paused") = some (flagChange "true" "false") ∧
    (∃ result, diffLedgerSnapshots (flagRun "run-1" "true" "true") (flagRun "run-2" "true" "false") = .ok result ∧
      ReportedUnchanged result (text "paused")) ∧
    ¬Same (parseValue (some (text "true"))).value (parseValue (some (text "false"))).value := by
  -- a flag that was set before the one run and is cleared after the other
  refine ⟨by decide +kernel, rfl, rfl, flagRuns_result, ?_⟩
  have hbefore : (parseValue (some (text "true"))).value = .bool true := rfl
  have hafter : (parseValue (some (text "false"))).value = .bool false := rfl
  rw [hbefore, hafter]
  simp [Same]

end Sample

end CrashLab.LedgerDiff
