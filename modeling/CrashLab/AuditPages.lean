import CrashLab.AuditChain
import CrashLab.AuditQuery

namespace CrashLab.Audit

open Decimals JsStrings JsonTexts SignatureHash Digest

section Cursors

variable (platform : Platform)

theorem fromBase64Url_toBase64Url (chars : List Char) :
    fromBase64Url platform (toBase64Url chars) = chars := by
  have hbytes : ByteArray.mk (asBytes (String.ofList chars)).toArray = chars.utf8Encode := by
    simp [asBytes]
  rw [fromBase64Url, toBase64Url, Base64.decode_encode, hbytes, List.utf8Decode?_utf8Encode]

theorem get_boundCursor (sequence : ℕ) (scope : JsString) :
    (boundCursor sequence scope).get (text "v") = some (.number (Decimal.ofNat 2)) ∧
      (boundCursor sequence scope).get (text "seq") = some (.number (Decimal.ofNat sequence)) ∧
      (boundCursor sequence scope).get (text "scope") = some (.string scope) := by
  have hscope : (text "scope" = text "v") = False ∧ (text "scope" = text "seq") = False := by decide
  have hseq : (text "seq" = text "v") = False := by decide
  simp only [boundCursor, Json.get, List.reverse_cons, List.reverse_nil, List.nil_append, List.cons_append,
    List.find?_cons, hscope, hseq, decide_false, decide_true, Option.map_some, and_self]

theorem decodeBoundAuditCursor_encode (sequence : ℕ) (scope : JsString) :
    decodeBoundAuditCursor platform (encodeBoundAuditCursor sequence scope) scope = .ok (sequence : ℚ) := by
  obtain ⟨hv, hseq, hscope⟩ := get_boundCursor sequence scope
  simp only [decodeBoundAuditCursor, encodeBoundAuditCursor, fromBase64Url_toBase64Url, parse_stringify,
    Option.getD_some, hv, hseq, hscope, Decimal.value_ofNat]
  simp

omit platform in
theorem encodeBoundAuditCursor_ne_nil (sequence : ℕ) (scope : JsString) :
    encodeBoundAuditCursor sequence scope ≠ [] := by
  intro h
  have hbytes := Base64.decode_encode (asBytes (String.ofList (stringify (boundCursor sequence scope))))
  rw [encodeBoundAuditCursor, toBase64Url] at h
  rw [h] at hbytes
  have hempty : String.ofList (stringify (boundCursor sequence scope)) = "" := asBytes_injective hbytes.symm
  rw [← String.ofList_nil] at hempty
  have hchars := String.ofList_injective hempty
  simp [boundCursor, stringify] at hchars

end Cursors

section Walk

variable (sha256 : List UInt8 → List UInt8) (clearUrl : JsString → Option JsString) (platform : Platform)
variable (orgId : JsString) (query : AuditQuery) (limit : Option ℚ) (scope : JsString)

/-- A client that follows the cursors it is given; `batches n` is appended after its page `n`. -/
def follow (batches : ℕ → List (JsString × AuditEntryInput)) :
    ℕ → ℕ → List AuditEntry → Option (List Char) → Option (List AuditEntry)
  | 0, _, _, _ => none
  | fuel + 1, n, entries, cursor =>
    match queryAuditEntries platform entries orgId query { cursor, limit, scope := some scope } with
    | .error _ => none
    | .ok page =>
      match page.nextCursor with
      | none => some page.items
      | some next =>
        match appendAll sha256 clearUrl entries (batches n) with
        | .error _ => none
        | .ok entries => (follow batches fuel (n + 1) entries (some next)).map (page.items ++ ·)

inductive Continues : Option (List Char) → Option ℕ → Prop
  | start : Continues none none
  | after (sequence : ℕ) : Continues (some (encodeBoundAuditCursor sequence scope)) (some sequence)

def remaining (entries : List AuditEntry) (after : Option ℕ) : List AuditEntry :=
  ((entries.filter (matchesQuery platform orgId query)).reverse).filter fun entry =>
    after.all fun after => decide (entry.sequence < after)

def Numbered (entries : List AuditEntry) : Prop := entries.Pairwise fun a b => a.sequence < b.sequence

theorem numbered_of_intact {prev : JsString} {index : ℕ} {entries : List AuditEntry}
    (h : verifyFrom sha256 prev index entries = .intact) : Numbered entries := by
  have hsequence := sequence_of_intact sha256 h
  apply List.pairwise_map.mp
  rw [hsequence, List.pairwise_map]
  exact List.pairwise_lt_range.imp fun hij => by omega

theorem filterScopedEntries_eq {entries : List AuditEntry} (h : Numbered entries) :
    filterScopedEntries platform entries orgId query =
      (entries.filter (matchesQuery platform orgId query)).reverse := by
  have hfilter := h.filter (matchesQuery platform orgId query)
  unfold filterScopedEntries
  generalize entries.filter (matchesQuery platform orgId query) = l at hfilter ⊢
  apply @List.Perm.eq_of_pairwise _ fun a b => OrderDual.toDual a.sequence ≤ OrderDual.toDual b.sequence
  · intro a b ha hb hab hba
    have hkey : a.sequence = b.sequence := le_antisymm hba hab
    rw [Sorting.mem_sortByKey] at ha
    rw [List.mem_reverse] at hb
    have hnodup : (l.map (·.sequence)).Nodup := (List.pairwise_map.mpr hfilter).imp fun hab => hab.ne
    exact List.inj_on_of_nodup_map hnodup ha hb hkey
  · exact Sorting.sortByKey_sorted _ _
  · rw [List.pairwise_reverse]
    exact hfilter.imp fun hab => hab.le
  · exact (Sorting.sortByKey_perm _ _).trans (List.reverse_perm l).symm

theorem filter_below {l front back : List AuditEntry} {x : AuditEntry} (hl : l = front ++ x :: back)
    (h : l.Pairwise fun a b => b.sequence < a.sequence) :
    l.filter (fun entry => decide (entry.sequence < x.sequence)) = back := by
  rw [hl, List.pairwise_append, List.pairwise_cons] at h
  obtain ⟨-, ⟨hback, -⟩, hfront⟩ := h
  rw [hl, List.filter_append, List.filter_cons_of_neg (by simp)]
  have hnone : front.filter (fun entry => decide (entry.sequence < x.sequence)) = [] := by
    rw [List.filter_eq_nil_iff]
    intro a ha
    have := hfront a ha x List.mem_cons_self
    rw [decide_eq_true_iff]
    omega
  have hall : back.filter (fun entry => decide (entry.sequence < x.sequence)) = back := by
    rw [List.filter_eq_self]
    intro a ha
    exact decide_eq_true (hback a ha)
  rw [hnone, hall, List.nil_append]

theorem remaining_decreasing {entries : List AuditEntry} (h : Numbered entries) (after : Option ℕ) :
    (remaining platform orgId query entries after).Pairwise fun a b => b.sequence < a.sequence := by
  apply List.Pairwise.filter
  rw [List.pairwise_reverse]
  exact h.filter _

theorem remaining_append {entries added : List AuditEntry} {after : Option ℕ} {x : AuditEntry}
    {front back : List AuditEntry} (h : Numbered (entries ++ added))
    (hrest : remaining platform orgId query entries after = front ++ x :: back) :
    remaining platform orgId query (entries ++ added) (some x.sequence) = back := by
  have hnumbered : Numbered entries := (List.pairwise_append.mp h).1
  have hx : x ∈ remaining platform orgId query entries after := by
    rw [hrest]
    exact List.mem_append_right _ List.mem_cons_self
  obtain ⟨hxmem, hxafter⟩ := List.mem_filter.mp hx
  rw [List.mem_reverse, List.mem_filter] at hxmem
  have hbelow := filter_below hrest (remaining_decreasing platform orgId query hnumbered after)
  rw [← hbelow, remaining, remaining, List.filter_append, List.reverse_append, List.filter_append,
    List.filter_filter]
  have hnone : ((added.filter (matchesQuery platform orgId query)).reverse).filter
      (fun entry => (some x.sequence).all fun after => decide (entry.sequence < after)) = [] := by
    rw [List.filter_eq_nil_iff]
    intro a ha
    rw [List.mem_reverse, List.mem_filter] at ha
    have := (List.pairwise_append.mp h).2.2 x hxmem.1 a ha.1
    rw [Option.all_some, decide_eq_true_iff]
    omega
  rw [hnone, List.nil_append]
  apply List.filter_congr
  intro a _
  cases after with
  | none => simp
  | some bound =>
    rw [Option.all_some, decide_eq_true_iff] at hxafter
    simp only [Option.all_some, ← Bool.decide_and, decide_eq_decide]
    omega

def pageSize : ℕ := (pageLimit limit).floor.toNat

theorem one_le_pageLimit : 1 ≤ pageLimit limit := by
  rw [pageLimit, maxAuditPageSize, le_min_iff]
  exact ⟨le_max_left _ _, by norm_num⟩

theorem floor_pageLimit : ((pageSize limit : ℕ) : ℤ) = ⌊pageLimit limit⌋ := by
  have hone : (1 : ℤ) ≤ ⌊pageLimit limit⌋ := Int.le_floor.mpr (by exact_mod_cast one_le_pageLimit limit)
  exact Int.toNat_of_nonneg (show (0 : ℤ) ≤ ⌊pageLimit limit⌋ by omega)

theorem pageSize_pos : 0 < pageSize limit := by
  have hone : (1 : ℤ) ≤ ⌊pageLimit limit⌋ := Int.le_floor.mpr (by exact_mod_cast one_le_pageLimit limit)
  have := floor_pageLimit limit
  omega

theorem pageLimit_lt (n : ℕ) : pageLimit limit < n ↔ pageSize limit < n := by
  have h := @Int.floor_lt _ _ _ _ (n : ℤ) (pageLimit limit)
  rw [← floor_pageLimit] at h
  exact_mod_cast h.symm

theorem queryAuditEntries_spec {entries : List AuditEntry} {cursor : Option (List Char)} {after : Option ℕ}
    (hscope : scope ≠ []) (h : Numbered entries) (hcursor : Continues scope cursor after) :
    ∃ page, queryAuditEntries platform entries orgId query { cursor, limit, scope := some scope } = .ok page ∧
      page.items = (remaining platform orgId query entries after).take (pageSize limit) ∧
      page.nextCursor =
        if pageSize limit < (remaining platform orgId query entries after).length then
          page.items.getLast?.map fun last => encodeBoundAuditCursor last.sequence scope
        else none := by
  have hscope' : truthy (some scope) = some scope := by
    rw [truthy, Option.filter_some, if_pos]
    simpa using hscope
  have hmatching : ∀ after : Option ℕ, (filterScopedEntries platform entries orgId query).filter
      (fun entry => (after.map ((↑) : ℕ → ℚ)).all fun after => decide ((entry.sequence : ℚ) < after)) =
        remaining platform orgId query entries after := by
    intro after
    rw [filterScopedEntries_eq platform orgId query h, remaining]
    apply List.filter_congr
    intro a _
    cases after <;> simp
  let rest := remaining platform orgId query entries after
  have hafter : pageAfter platform cursor (some scope) = .ok (after.map ((↑) : ℕ → ℚ)) := by
    cases hcursor with
    | start => rfl
    | after sequence =>
      rw [pageAfter]
      · rw [decodeBoundAuditCursor_encode]
        rfl
      · exact encodeBoundAuditCursor_ne_nil sequence scope
  refine ⟨⟨rest.take (pageSize limit), (filterScopedEntries platform entries orgId query).length,
    (if pageSize limit < rest.length then (rest.take (pageSize limit)).getLast? else none).map
      fun last => encodeBoundAuditCursor last.sequence scope, decide (pageSize limit < rest.length)⟩, ?_, rfl, ?_⟩
  · simp only [queryAuditEntries, hscope', hafter, pageLimit_lt]
    change Except.ok _ = Except.ok _
    simp only [hmatching, decide_eq_true_eq]
    rfl
  · dsimp only
    split_ifs <;> rfl

theorem follow_remaining (batches : ℕ → List (JsString × AuditEntryInput)) (hscope : scope ≠ []) {fuel n : ℕ}
    {entries : List AuditEntry} {cursor : Option (List Char)} {after : Option ℕ}
    (hintact : verifyFrom sha256 genesisHash 0 entries = .intact) (hcursor : Continues scope cursor after)
    (hfuel : (remaining platform orgId query entries after).length < fuel) :
    follow sha256 clearUrl platform orgId query limit scope batches fuel n entries cursor =
      some (remaining platform orgId query entries after) := by
  induction fuel generalizing n entries cursor after with
  | zero => omega
  | succ fuel ih =>
    obtain ⟨page, hpage, hitems, hnext⟩ :=
      queryAuditEntries_spec platform orgId query limit scope hscope (numbered_of_intact sha256 hintact) hcursor
    have hpos := pageSize_pos limit
    rw [follow, hpage]
    by_cases hmore : pageSize limit < (remaining platform orgId query entries after).length
    · obtain ⟨front, x, hfront⟩ : ∃ front x,
          (remaining platform orgId query entries after).take (pageSize limit) = front ++ [x] := by
        refine ⟨_, _, (List.dropLast_append_getLast ?_).symm⟩
        rw [Ne, List.take_eq_nil_iff, not_or]
        refine ⟨by omega, ?_⟩
        intro hnil
        rw [hnil] at hmore
        simp at hmore
      obtain ⟨added, hok, -, hintact'⟩ := appendAll_spec sha256 clearUrl (batches n) hintact
      have hsplit : remaining platform orgId query entries after =
          front ++ x :: (remaining platform orgId query entries after).drop (pageSize limit) := by
        conv_lhs => rw [← List.take_append_drop (pageSize limit) (remaining platform orgId query entries after), hfront]
        rw [List.append_assoc, List.singleton_append]
      have hrest := remaining_append platform orgId query (numbered_of_intact sha256 hintact') hsplit
      rw [if_pos hmore, hitems, hfront, List.getLast?_concat, Option.map_some] at hnext
      have hwalk := ih (n := n + 1) hintact' (Continues.after x.sequence) (by
        rw [hrest, List.length_drop]
        omega)
      simp only [hnext, hok, hwalk, hrest, Option.map_some, hitems, List.take_append_drop]
    · rw [if_neg hmore] at hnext
      simp only [hnext, hitems, List.take_of_length_le (not_lt.mp hmore)]

end Walk

theorem pages_complete (sha256 : List UInt8 → List UInt8) (clearUrl : JsString → Option JsString)
    (platform : Platform) (calls : List (JsString × AuditEntryInput))
    (batches : ℕ → List (JsString × AuditEntryInput)) (orgId : JsString) (query : AuditQuery) (limit : Option ℚ)
    (scope : JsString) (hscope : scope ≠ []) :
    ∃ entries, appendAll sha256 clearUrl [] calls = .ok entries ∧
      ∃ fuel items, follow sha256 clearUrl platform orgId query limit scope batches fuel 0 entries none = some items ∧
        items.Perm (entries.filter (matchesQuery platform orgId query)) ∧
        items.Pairwise fun a b => b.sequence < a.sequence := by
  have hempty : verifyFrom sha256 genesisHash 0 [] = .intact := rfl
  obtain ⟨entries, hok, -, hintact⟩ := appendAll_spec sha256 clearUrl calls hempty
  rw [List.nil_append] at hok hintact
  refine ⟨entries, hok, _, _, follow_remaining sha256 clearUrl platform orgId query limit scope batches hscope hintact
    (Continues.start) (Nat.lt_succ_self _), ?_, ?_⟩
  · have hall : remaining platform orgId query entries none =
        (entries.filter (matchesQuery platform orgId query)).reverse := by
      simp [remaining]
    rw [hall]
    exact List.reverse_perm _
  · exact remaining_decreasing platform orgId query (numbered_of_intact sha256 hintact) none

section Sample

def samplePlatform : Platform :=
  { toLowerCase := lowerAscii
    dateParse := fun s =>
      if s = text "2026-01-01T00:00:00.000Z" then some 1767225600000
      else if s = text "2026-01-01T00:00:01.000Z" then some 1767225601000
      else none
    replaceInvalid := fun _ => [] }

def secondCall : JsString × AuditEntryInput :=
  (text "2026-01-01T00:00:01.000Z",
    { action := .tokenRevoke
      target := text "key-1"
      metadata := some [(text "token", .string (text "abcdef0123"))]
      orgId := some (text "org_default") })

theorem sample_pages_complete :
    ∃ entries, appendAll sampleSha256 (fun _ => none) [] [firstCall, secondCall] = .ok entries ∧
      ∃ fuel items, follow sampleSha256 (fun _ => none) samplePlatform (text "org_default") { } (some 1)
        (text "811c9dc5") (fun _ => [secondCall]) fuel 0 entries none = some items ∧
        items.Perm (entries.filter (matchesQuery samplePlatform (text "org_default") { })) ∧
        items.Pairwise fun a b => b.sequence < a.sequence :=
  pages_complete sampleSha256 (fun _ => none) samplePlatform [firstCall, secondCall] (fun _ => [secondCall])
    (text "org_default") { } (some 1) (text "811c9dc5") (by decide)

end Sample

end CrashLab.Audit
