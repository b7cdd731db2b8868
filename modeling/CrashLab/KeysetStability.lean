import CrashLab.KeysetPagination
import CrashLab.PagedPasses
import CrashLab.Digest

namespace CrashLab.Pagination

open Decimals JsStrings JsonTexts SignatureHash Digest Comparators PagedPasses

section Cursors

variable (replaceInvalid : List UInt8 → List Char)

theorem fromBase64_toBase64 (json : List Char) : fromBase64 replaceInvalid (toBase64 json) = json := by
  have hbytes : ByteArray.mk (asBytes (String.ofList json)).toArray = json.utf8Encode := by
    simp [asBytes]
  rw [fromBase64, toBase64, Base64.decode_encodeStandard, hbytes, List.utf8Decode?_utf8Encode]

theorem toBase64_ne_nil {json : List Char} (h : json ≠ []) : toBase64 json ≠ [] := by
  intro hnil
  apply h
  have hback := fromBase64_toBase64 (fun _ => []) json
  rw [hnil] at hback
  rw [← hback]
  rfl

theorem ofJson_json (sortKey : SortKey) : SortKey.ofJson sortKey.json = some sortKey := by
  cases sortKey <;> rfl

theorem get_cursorJson (cursor : KeysetCursor) :
    (cursorJson cursor).get (ofString "id") = some (.string cursor.id) ∧
      (cursorJson cursor).get (ofString "sortKey") = some cursor.sortKey.json := by
  have hid : (ofString "id" = ofString "sortKey") = False := by decide
  simp only [cursorJson, Json.get, List.reverse_cons, List.reverse_nil, List.nil_append, List.cons_append,
    List.find?_cons, hid, decide_false, decide_true, Option.map_some, and_self]

theorem decodeCursor_encodeCursor (cursor : KeysetCursor) :
    decodeCursor replaceInvalid (encodeCursor cursor) = some cursor := by
  obtain ⟨hid, hkey⟩ := get_cursorJson cursor
  simp only [decodeCursor, encodeCursor, fromBase64_toBase64, parse_stringify]
  simp only [Option.bind_eq_bind, Option.bind_some, hid, hkey]
  simp [ofJson_json]

theorem get_boundCursorJson (cursor : KeysetCursor) (scope : JsString) :
    (boundCursorJson cursor scope).get (ofString "v") = some (.number (Decimal.ofNat cursorPayloadVersion)) ∧
      (boundCursorJson cursor scope).get (ofString "sortKey") = some cursor.sortKey.json ∧
      (boundCursorJson cursor scope).get (ofString "id") = some (.string cursor.id) ∧
      (boundCursorJson cursor scope).get (ofString "scope") = some (.string scope) := by
  have hscope : (ofString "scope" = ofString "v") = False ∧ (ofString "scope" = ofString "sortKey") = False ∧
      (ofString "scope" = ofString "id") = False := by decide
  have hid : (ofString "id" = ofString "v") = False ∧ (ofString "id" = ofString "sortKey") = False := by decide
  have hkey : (ofString "sortKey" = ofString "v") = False := by decide
  simp only [boundCursorJson, Json.get, List.reverse_cons, List.reverse_nil, List.nil_append, List.cons_append,
    List.find?_cons, hscope, hid, hkey, decide_false, decide_true, Option.map_some, and_self]

theorem decodeBoundCursor_encodeBoundCursor (cursor : KeysetCursor) (scope expectedScope : JsString) :
    decodeBoundCursor replaceInvalid (encodeBoundCursor cursor scope) expectedScope =
      if scope ≠ expectedScope then .scopeMismatch else .ok cursor := by
  obtain ⟨hv, hkey, hid, hscope⟩ := get_boundCursorJson cursor scope
  simp only [decodeBoundCursor, encodeBoundCursor, fromBase64_toBase64, parse_stringify, Option.getD_some, hv, hkey,
    hid, hscope, Option.bind_some, ofJson_json, Decimal.value_ofNat]
  simp

theorem stringify_object_ne_nil (members : List (JsString × Json)) : stringify (.object members) ≠ [] := by
  cases members <;> simp [stringify]

theorem readCursor_emitCursor (scope : Option JsString) (lastKey : KeysetCursor) :
    readCursor replaceInvalid (some (emitCursor scope lastKey)) scope = .ok (.target lastKey) := by
  cases scope with
  | none =>
    rw [emitCursor, readCursor, decodeCursor_encodeCursor]
    exact toBase64_ne_nil (stringify_object_ne_nil _)
  | some scope =>
    rw [emitCursor, readCursor, decodeBoundCursor_encodeBoundCursor, if_neg (not_not_intro rfl)]
    exact toBase64_ne_nil (stringify_object_ne_nil _)

end Cursors

section Order

structure StrictTotal (localeCompare : JsString → JsString → ℤ) : Prop where
  eq_of_zero : ∀ {a b}, localeCompare a b = 0 → a = b
  swap : ∀ {a b}, localeCompare a b < 0 ↔ 0 < localeCompare b a
  trans : ∀ {a b c}, localeCompare a b < 0 → localeCompare b c < 0 → localeCompare a c < 0

def SortKey.isNumber : SortKey → Bool
  | number _ => true
  | text _ => false

theorem isNumber_ne (value : Decimal) (s : JsString) : (SortKey.number value).isNumber ≠ (SortKey.text s).isNumber :=
  Bool.noConfusion

def OfType (numeric : Bool) (cursor : KeysetCursor) : Prop := cursor.sortKey.isNumber = numeric

variable {localeCompare : JsString → JsString → ℤ} (order : StrictTotal localeCompare)

include order

theorem consistent_localeCompare : Consistent (fun _ => True) fun a b => (localeCompare a b : ℚ) where
  swap _ _ := by
    rw [Int.cast_lt_zero, Int.cast_pos]
    exact order.swap
  trans _ _ _ hab hbd := by
    rw [Int.cast_nonpos] at hab hbd ⊢
    obtain hab | hab := hab.lt_or_eq
    · obtain hbd | hbd := hbd.lt_or_eq
      · exact (order.trans hab hbd).le
      · rw [← order.eq_of_zero hbd]
        exact hab.le
    · rw [order.eq_of_zero hab]
      exact hbd

theorem consistent_primaryDiff (numeric : Bool) : Consistent (OfType numeric) (primaryDiff localeCompare) where
  swap {a b} ha hb := by
    unfold OfType at ha hb
    unfold primaryDiff
    cases hka : a.sortKey <;> cases hkb : b.sortKey <;> rw [hka] at ha <;> rw [hkb] at hb
    · simp only
      rw [sub_neg, sub_pos]
    · exact absurd (ha.trans hb.symm) (isNumber_ne _ _)
    · exact absurd (hb.trans ha.symm) (isNumber_ne _ _)
    · exact (consistent_localeCompare order).swap trivial trivial
  trans {a b d} ha hb hd hab hbd := by
    unfold OfType at ha hb hd
    unfold primaryDiff at hab hbd ⊢
    cases hka : a.sortKey <;> cases hkb : b.sortKey <;> rw [hka] at ha hab <;> rw [hkb] at hb hab hbd
    · cases hkd : d.sortKey <;> rw [hkd] at hd hbd
      · simp only at hab hbd ⊢
        linarith
      · exact absurd (ha.trans hd.symm) (isNumber_ne _ _)
    · exact absurd (ha.trans hb.symm) (isNumber_ne _ _)
    · exact absurd (hb.trans ha.symm) (isNumber_ne _ _)
    · cases hkd : d.sortKey <;> rw [hkd] at hd hbd
      · exact absurd (hd.trans ha.symm) (isNumber_ne _ _)
      · exact (consistent_localeCompare order).trans trivial trivial trivial hab hbd

theorem consistent_idDiff (numeric : Bool) : Consistent (OfType numeric) (idDiff localeCompare) :=
  (consistent_localeCompare order).comap fun _ _ => trivial

omit order in
theorem consistent_sign {P : KeysetCursor → Prop} {c : KeysetCursor → KeysetCursor → ℚ} (direction : Direction)
    (h : Consistent P c) : Consistent P fun a b => direction.sign (c a b) := by
  cases direction with
  | asc => exact h
  | desc => exact h.neg

omit order in
theorem sign_ne_zero (direction : Direction) (diff : ℚ) : direction.sign diff ≠ 0 ↔ diff ≠ 0 := by
  cases direction <;> simp [Direction.sign]

omit order in
theorem compareKeyset_eq (direction : Direction) :
    compareKeyset localeCompare direction =
      thenBy (fun a b => direction.sign (primaryDiff localeCompare a b))
        fun a b => direction.sign (idDiff localeCompare a b) := by
  funext a b
  simp only [compareKeyset, thenBy, sign_ne_zero]

theorem consistent_compareKeyset (direction : Direction) (numeric : Bool) :
    Consistent (OfType numeric) (compareKeyset localeCompare direction) := by
  rw [compareKeyset_eq]
  apply Consistent.thenBy
  · exact consistent_sign direction (consistent_primaryDiff order numeric)
  · exact consistent_sign direction (consistent_idDiff order numeric)

theorem id_eq_of_compareKeyset {direction : Direction} {a b : KeysetCursor}
    (h : compareKeyset localeCompare direction a b = 0) : a.id = b.id := by
  unfold compareKeyset at h
  split_ifs at h with hprimary
  · exact absurd h ((sign_ne_zero direction _).mpr hprimary)
  · apply order.eq_of_zero
    have hid : (localeCompare a.id b.id : ℚ) = 0 :=
      not_not.mp ((sign_ne_zero direction (idDiff localeCompare a b)).not.mp (not_not_intro h))
    exact_mod_cast hid

end Order

section Passes

variable (localeCompare : JsString → JsString → ℤ) (replaceInvalid : List UInt8 → List Char)
variable {T : Type} (getItemKeyset : T → KeysetCursor) (direction : Direction) (limit : ℤ) (scope : Option JsString)

def followCursors : List (List T) → Option (List Char) → Except PaginationError (List T × Bool)
  | [], _ => .ok ([], false)
  | items :: later, cursor => do
    let page ← paginateKeyset localeCompare replaceInvalid getItemKeyset items { cursor, limit, direction, scope }
    match page.nextCursor with
    | none => return (page.items, true)
    | some next =>
      let (rows, finished) ← followCursors later (some next)
      return (page.items ++ rows, finished)

structure Collection (numeric : Bool) where
  items : List T
  unique : (items.map fun item => (getItemKeyset item).id).Nodup
  sameType : ∀ item ∈ items, OfType numeric (getItemKeyset item)

def Precedes (a b : KeysetCursor) : Prop := 0 < compareKeyset localeCompare direction b a

instance : DecidableRel (Precedes localeCompare direction) :=
  fun a b => inferInstanceAs (Decidable (0 < compareKeyset localeCompare direction b a))

def listing (items : List T) : List KeysetCursor :=
  sortBy (compareKeyset localeCompare direction) (items.map getItemKeyset)

inductive Continues : Option (List Char) → Option KeysetCursor → Prop
  | start : Continues none none
  | after (lastKey : KeysetCursor) : Continues (some (emitCursor (truthy scope) lastKey)) (some lastKey)

theorem readCursor_continues {cursor : Option (List Char)} {position : Option KeysetCursor}
    (h : Continues scope cursor position) :
    ∃ reading, readCursor replaceInvalid cursor (truthy scope) = .ok reading ∧ reading.position = position := by
  cases h with
  | start => exact ⟨.absent, rfl, rfl⟩
  | after lastKey => exact ⟨.target lastKey, readCursor_emitCursor replaceInvalid _ lastKey, rfl⟩

theorem map_listing (items : List T) :
    (sortBy (fun a b => compareKeyset localeCompare direction (getItemKeyset a) (getItemKeyset b)) items).map
      getItemKeyset = listing localeCompare getItemKeyset direction items :=
  map_sortBy getItemKeyset (compareKeyset localeCompare direction) items

theorem mem_listing {items : List T} {key : KeysetCursor} :
    key ∈ listing localeCompare getItemKeyset direction items ↔ key ∈ items.map getItemKeyset := mem_sortBy

theorem paginateKeyset_spec (hlimit : 0 < limit) (items : List T) {cursor : Option (List Char)}
    {position : Option KeysetCursor} (h : Continues scope cursor position) :
    ∃ page, paginateKeyset localeCompare replaceInvalid getItemKeyset items { cursor, limit, direction, scope } =
        .ok page ∧
      page.items.map getItemKeyset = (beyond (Precedes localeCompare direction)
        (listing localeCompare getItemKeyset direction items) position).take limit.toNat ∧
      (page.nextCursor =
        if limit.toNat < (beyond (Precedes localeCompare direction)
          (listing localeCompare getItemKeyset direction items) position).length then
          (page.items.map getItemKeyset).getLast?.map (emitCursor (truthy scope))
        else none) ∧ ∀ item ∈ page.items, item ∈ items := by
  obtain ⟨reading, hreading, rfl⟩ := readCursor_continues replaceInvalid scope h
  let sorted := sortBy (fun a b => compareKeyset localeCompare direction (getItemKeyset a) (getItemKeyset b)) items
  let filtered := reading.position.elim sorted fun target =>
    sorted.filter fun item => decide (0 < compareKeyset localeCompare direction (getItemKeyset item) target)
  have hbeyond : beyond (Precedes localeCompare direction) (listing localeCompare getItemKeyset direction items)
      reading.position = filtered.map getItemKeyset := by
    rw [beyond, ← map_listing, List.filter_map]
    cases hreached : reading.position with
    | none => simp only [Option.all_none, Function.comp_def, List.filter_true, filtered, hreached, sorted, Option.elim_none]
    | some target =>
      simp only [filtered, hreached]
      rfl
  have hmem : ∀ item ∈ filtered, item ∈ items := by
    intro item hitem
    have hsorted : item ∈ sorted := by
      simp only [filtered] at hitem
      cases hreached : reading.position with
      | none =>
        rw [hreached] at hitem
        exact hitem
      | some target =>
        rw [hreached] at hitem
        exact List.mem_of_mem_filter hitem
    exact mem_sortBy.mp hsorted
  refine ⟨⟨filtered.take limit.toNat, items.length,
    if decide (limit.toNat < filtered.length) then
      ((filtered.take limit.toNat).getLast?.map getItemKeyset).map (emitCursor (truthy scope)) else none,
    decide (limit.toNat < filtered.length), reading.legacy?⟩, ?_, ?_, ?_, ?_⟩
  · rw [paginateKeyset, if_neg (not_le.mpr hlimit)]
    simp only [hreading]
    cases reading <;> rfl
  · rw [hbeyond, List.map_take]
  · rw [hbeyond, List.length_map]
    simp only [decide_eq_true_eq, List.getLast?_map]
  · exact fun item hitem => hmem item (List.mem_of_mem_take hitem)

theorem followCursors_spec (hlimit : 0 < limit) (collections : List (List T)) {cursor : Option (List Char)}
    {position : Option KeysetCursor} (h : Continues scope cursor position) :
    ∃ rows, followCursors localeCompare replaceInvalid getItemKeyset direction limit scope collections cursor =
        .ok (rows, (passFrom (Precedes localeCompare direction) limit.toNat
          (collections.map (listing localeCompare getItemKeyset direction)) position).2) ∧
      rows.map getItemKeyset = (passFrom (Precedes localeCompare direction) limit.toNat
        (collections.map (listing localeCompare getItemKeyset direction)) position).1 ∧
      ∀ row ∈ rows, ∃ items ∈ collections, row ∈ items := by
  induction collections generalizing cursor position with
  | nil => exact ⟨[], rfl, rfl, by simp⟩
  | cons items later ih =>
    obtain ⟨page, hpage, hitems, hnext, hmem⟩ :=
      paginateKeyset_spec localeCompare replaceInvalid getItemKeyset direction limit scope hlimit items h
    rw [followCursors, hpage, List.map_cons, passFrom]
    have hsize : 0 < limit.toNat := by omega
    split_ifs at hnext ⊢ with hmore
    · obtain ⟨front, last, hfront, hlast⟩ := getLast_take hsize hmore
      rw [hitems, hlast, Option.map_some] at hnext
      obtain ⟨rows, hrows, hkeys, hlisted⟩ := ih (Continues.after last)
      refine ⟨page.items ++ rows, ?_, ?_, ?_⟩
      · dsimp only
        rw [hlast]
        change (match page.nextCursor with
          | none => Except.ok (page.items, true)
          | some next =>
            (followCursors localeCompare replaceInvalid getItemKeyset direction limit scope later (some next)).bind
              fun result => Except.ok (page.items ++ result.1, result.2)) = _
        rw [hnext]
        dsimp only
        rw [hrows]
        rfl
      · dsimp only
        rw [hlast, List.map_append, hitems, hkeys]
      · intro row hrow
        rw [List.mem_append] at hrow
        obtain hrow | hrow := hrow
        · exact ⟨items, List.mem_cons_self, hmem row hrow⟩
        · obtain ⟨items', hitems', hrow⟩ := hlisted row hrow
          exact ⟨items', List.mem_cons_of_mem _ hitems', hrow⟩
    · refine ⟨page.items, ?_, hitems, fun row hrow => ⟨items, List.mem_cons_self, hmem row hrow⟩⟩
      change (match page.nextCursor with
        | none => Except.ok (page.items, true)
        | some next =>
          (followCursors localeCompare replaceInvalid getItemKeyset direction limit scope later (some next)).bind
            fun result => Except.ok (page.items ++ result.1, result.2)) = _
      rw [hnext]

end Passes

section Stability

variable {localeCompare : JsString → JsString → ℤ} (order : StrictTotal localeCompare) {direction : Direction}
variable {T : Type} {getItemKeyset : T → KeysetCursor} {numeric : Bool}

include order

theorem precedes_iff {a b : KeysetCursor} (ha : OfType numeric a) (hb : OfType numeric b) :
    Precedes localeCompare direction a b ↔ compareKeyset localeCompare direction a b < 0 :=
  ((consistent_compareKeyset order direction numeric).swap ha hb).symm

theorem precedes_trans {a b c : KeysetCursor} (ha : OfType numeric a) (hb : OfType numeric b) (hc : OfType numeric c)
    (hab : Precedes localeCompare direction a b) (hbc : Precedes localeCompare direction b c) :
    Precedes localeCompare direction a c := by
  rw [precedes_iff order ha hb] at hab
  rw [precedes_iff order hb hc] at hbc
  rw [precedes_iff order ha hc]
  exact (consistent_compareKeyset order direction numeric).lt_of_lt_of_le ha hb hc hab hbc.le

theorem precedes_irrefl (a : KeysetCursor) (ha : OfType numeric a) : ¬ Precedes localeCompare direction a a := by
  rw [Precedes, (consistent_compareKeyset order direction numeric).self ha]
  exact lt_irrefl 0

theorem listing_sorted (collection : Collection getItemKeyset numeric) :
    (listing localeCompare getItemKeyset direction collection.items).Pairwise (Precedes localeCompare direction) ∧
      ∀ key ∈ listing localeCompare getItemKeyset direction collection.items, OfType numeric key := by
  have htype : ∀ key ∈ collection.items.map getItemKeyset, OfType numeric key := by
    intro key hkey
    obtain ⟨item, hitem, rfl⟩ := List.mem_map.mp hkey
    exact collection.sameType item hitem
  have hdistinct : (collection.items.map getItemKeyset).Pairwise
      fun a b => compareKeyset localeCompare direction a b ≠ 0 := by
    rw [List.pairwise_map]
    apply (List.pairwise_map.mp collection.unique).imp
    intro a b hab hzero
    exact hab (id_eq_of_compareKeyset order hzero)
  have hmem : ∀ key ∈ listing localeCompare getItemKeyset direction collection.items, OfType numeric key :=
    fun key hkey => htype key (mem_sortBy.mp hkey)
  refine ⟨?_, hmem⟩
  apply (sortBy_strict (consistent_compareKeyset order direction numeric) htype hdistinct).imp_of_mem
  intro a b ha hb hab
  exact (precedes_iff order (hmem a ha) (hmem b hb)).mpr hab

omit order in
theorem key_unique (collection : Collection getItemKeyset numeric) {key : KeysetCursor}
    (hkey : key ∈ collection.items.map getItemKeyset) {row : T} (hrow : row ∈ collection.items)
    (hid : (getItemKeyset row).id = key.id) : getItemKeyset row = key := by
  obtain ⟨item, hitem, rfl⟩ := List.mem_map.mp hkey
  rw [List.inj_on_of_nodup_map collection.unique hrow hitem hid]

theorem filter_id_eq {keys : List KeysetCursor} {key : KeysetCursor} (hmem : key ∈ keys)
    (hsorted : keys.Pairwise (Precedes localeCompare direction)) (htype : ∀ k ∈ keys, OfType numeric k)
    (hunique : ∀ k ∈ keys, k.id = key.id → k = key) : keys.filter (fun found => found.id = key.id) = [key] := by
  have hnodup : keys.Nodup := by
    apply hsorted.imp_of_mem
    rintro a b ha - hab rfl
    exact precedes_irrefl order a (htype a ha) hab
  have hfilter : keys.filter (fun found => found.id = key.id) = keys.filter fun found => found = key := by
    apply List.filter_congr
    intro found hfound
    rw [decide_eq_decide]
    exact ⟨hunique found hfound, congrArg KeysetCursor.id⟩
  rw [hfilter, List.filter_eq, List.count_eq_one_of_mem hnodup hmem]
  rfl

end Stability

theorem pagination_stable {localeCompare : JsString → JsString → ℤ} (order : StrictTotal localeCompare)
    (replaceInvalid : List UInt8 → List Char) {T : Type} (getItemKeyset : T → KeysetCursor) (numeric : Bool)
    (direction : Direction) (limit : ℤ) (hlimit : 0 < limit) (scope : Option JsString) :
    (∀ collections : List (Collection getItemKeyset numeric), ∃ rows finished,
      followCursors localeCompare replaceInvalid getItemKeyset direction limit scope
          (collections.map Collection.items) none = .ok (rows, finished) ∧
        (rows.Pairwise fun a b => compareKeyset localeCompare direction (getItemKeyset a) (getItemKeyset b) < 0) ∧
        (∀ row ∈ rows, ∃ collection ∈ collections, row ∈ collection.items) ∧
        (finished = true → ∀ key, (∀ collection ∈ collections, key ∈ collection.items.map getItemKeyset) →
          (rows.map getItemKeyset).filter (fun found => found.id = key.id) = [key])) ∧
    ∀ collections : ℕ → Collection getItemKeyset numeric,
      (∃ quiet, ∀ n ≥ quiet, ∀ key ∈ (collections (n + 1)).items.map getItemKeyset,
        key ∈ (collections n).items.map getItemKeyset) →
      ∃ fetches rows, followCursors localeCompare replaceInvalid getItemKeyset direction limit scope
        ((List.range fetches).map fun n => (collections n).items) none = .ok (rows, true) := by
  have hsize : 0 < limit.toNat := by omega
  have htrans : ∀ {a b c}, OfType numeric a → OfType numeric b → OfType numeric c →
      Precedes localeCompare direction a b → Precedes localeCompare direction b c →
      Precedes localeCompare direction a c := precedes_trans order
  have hstart : ∀ p ∈ (none : Option KeysetCursor), OfType numeric p := by simp
  constructor
  · intro collections
    obtain ⟨rows, hrows, hkeys, hlisted⟩ := followCursors_spec localeCompare replaceInvalid getItemKeyset direction limit
      scope hlimit (collections.map Collection.items) (Continues.start)
    rw [List.map_map] at hrows hkeys
    have hsorted : ∀ listing' ∈ collections.map (listing localeCompare getItemKeyset direction ∘ Collection.items),
        listing'.Pairwise (Precedes localeCompare direction) ∧ ∀ key ∈ listing', OfType numeric key := by
      rw [List.forall_mem_map]
      exact fun collection _ => listing_sorted order collection
    have hordered := passFrom_ordered htrans hsize hsorted hstart
    rw [← hkeys] at hordered
    have htype : ∀ row ∈ rows, OfType numeric (getItemKeyset row) := by
      intro row hrow
      obtain ⟨items, hitems, hrow⟩ := hlisted row hrow
      obtain ⟨collection, -, rfl⟩ := List.mem_map.mp hitems
      exact collection.sameType row hrow
    have hincreasing : rows.Pairwise fun a b =>
        compareKeyset localeCompare direction (getItemKeyset a) (getItemKeyset b) < 0 := by
      apply (List.pairwise_map.mp hordered.increasing).imp_of_mem
      intro a b ha hb hab
      exact (precedes_iff order (htype a ha) (htype b hb)).mp hab
    refine ⟨rows, _, hrows, hincreasing, ?_, ?_⟩
    · intro row hrow
      obtain ⟨items, hitems, hrow⟩ := hlisted row hrow
      obtain ⟨collection, hcollection, rfl⟩ := List.mem_map.mp hitems
      exact ⟨collection, hcollection, hrow⟩
    · intro hfinished key hkey
      have hmem : key ∈ rows.map getItemKeyset := by
        rw [hkeys]
        apply mem_passFrom hsize (fun listing' h => (hsorted listing' h).1) hfinished
        · rw [List.forall_mem_map]
          exact fun collection hcollection => mem_sortBy.mpr (hkey collection hcollection)
        · simp
      refine filter_id_eq order hmem hordered.increasing (List.forall_mem_map.mpr htype) ?_
      rw [List.forall_mem_map]
      intro row hrow hid
      obtain ⟨items, hitems, hrow⟩ := hlisted row hrow
      obtain ⟨collection, hcollection, rfl⟩ := List.mem_map.mp hitems
      exact key_unique collection (hkey collection hcollection) hrow hid
  · rintro collections ⟨quiet, hquiet⟩
    obtain ⟨fetches, hfetches⟩ := finishes htrans (precedes_irrefl order) hsize
      (fun n => listing_sorted order (collections n)) (fun n hn key hkey =>
        (mem_listing localeCompare getItemKeyset direction).mpr
          (hquiet n hn key ((mem_listing localeCompare getItemKeyset direction).mp hkey))) hstart
    obtain ⟨rows, hrows, -⟩ := followCursors_spec localeCompare replaceInvalid getItemKeyset direction limit scope
      hlimit ((List.range fetches).map fun n => (collections n).items) (Continues.start)
    refine ⟨fetches, rows, ?_⟩
    rw [List.map_map] at hrows
    rw [hrows]
    exact congrArg (fun finished => Except.ok (rows, finished)) hfetches

section Sample

/-- On lower case letters and digits alone `localeCompare` is the order of the code units. -/
def codeUnitCompare (a b : JsString) : ℤ :=
  if sortKey a < sortKey b then -1 else if sortKey b < sortKey a then 1 else 0

theorem codeUnitCompare_neg {a b : JsString} : codeUnitCompare a b < 0 ↔ sortKey a < sortKey b := by
  unfold codeUnitCompare
  split_ifs <;> simp_all

theorem strictTotal_codeUnitCompare : StrictTotal codeUnitCompare where
  eq_of_zero {a b} h := by
    unfold codeUnitCompare at h
    split_ifs at h with hab hba
    · exact absurd h (by decide)
    · have hkey : sortKey a = sortKey b := le_antisymm (not_lt.mp hba) (not_lt.mp hab)
      exact List.map_injective_iff.mpr (fun _ _ h => UInt16.toNat_inj.mp h) hkey
  swap {a b} := by
    rw [codeUnitCompare_neg]
    unfold codeUnitCompare
    split_ifs with hba hab
    · simp [hba.not_gt]
    · simp [hab]
    · simp [hab]
  trans hab hbc := by
    rw [codeUnitCompare_neg] at hab hbc ⊢
    exact hab.trans hbc

def sampleRow (value : ℕ) (id : String) : KeysetCursor := ⟨.number (Decimal.ofNat value), ofString id⟩

def sampleCollections : List (Collection (id : KeysetCursor → KeysetCursor) true) :=
  [⟨[sampleRow 7 "a", sampleRow 7 "b", sampleRow 9 "c"], by decide, by simp [OfType, sampleRow, SortKey.isNumber]⟩,
    ⟨[sampleRow 7 "b", sampleRow 7 "a", sampleRow 8 "d"], by decide, by simp [OfType, sampleRow, SortKey.isNumber]⟩]

theorem deleted_cursor_row_stable :
    ∃ rows finished, followCursors codeUnitCompare (fun _ => []) id .desc 1 (some (ofString "811c9dc5"))
        (sampleCollections.map Collection.items) none = .ok (rows, finished) ∧
      (rows.Pairwise fun a b => compareKeyset codeUnitCompare .desc (id a) (id b) < 0) ∧
      (∀ row ∈ rows, ∃ collection ∈ sampleCollections, row ∈ collection.items) ∧
      (finished = true → ∀ key, (∀ collection ∈ sampleCollections, key ∈ collection.items.map id) →
        (rows.map id).filter (fun found => found.id = key.id) = [key]) :=
  (pagination_stable strictTotal_codeUnitCompare (fun _ => []) id true .desc 1 (by decide)
    (some (ofString "811c9dc5"))).1 sampleCollections

end Sample

end CrashLab.Pagination
