import CrashLab.AuditPages
import CrashLab.Delimited
import CrashLab.KeysetPagination

namespace CrashLab.Audit

open Decimals JsStrings JsonTexts Delimited

def auditScopeParts (orgId : JsString) (query : AuditQuery) : List (JsString × Option Pagination.SortKey) :=
  [(text "route", some (.text (text "audit"))), (text "org", some (.text orgId)),
    (text "actor", some (.text (query.actor.getD []))), (text "action", some (.text (query.action.getD []))),
    (text "target", some (.text (query.target.getD []))), (text "since", some (.text (query.since.getD []))),
    (text "until", some (.text (query.until_.getD [])))]

def auditCursorScope (orgId : JsString) (query : AuditQuery) : JsString :=
  Pagination.computeCursorScope (auditScopeParts orgId query)

def scopeValues (orgId : JsString) (query : AuditQuery) : List JsString :=
  [query.action.getD [], query.actor.getD [], orgId, query.since.getD [], query.target.getD [], query.until_.getD []]

def scopeMarks : List JsString :=
  ["&actor=", "&org=", "&route=audit&since=", "&target=", "&until="].map text

theorem canonicalScope_audit (orgId : JsString) (query : AuditQuery) :
    Pagination.canonicalScope (auditScopeParts orgId query) =
      text "action=" ++ joined scopeMarks (scopeValues orgId query) := by
  have hsorted : Sorting.sortByKey (fun part => sortKey part.1) (auditScopeParts orgId query) =
      [(text "action", some (.text (query.action.getD []))), (text "actor", some (.text (query.actor.getD []))),
        (text "org", some (.text orgId)), (text "route", some (.text (text "audit"))),
        (text "since", some (.text (query.since.getD []))), (text "target", some (.text (query.target.getD []))),
        (text "until", some (.text (query.until_.getD [])))] := rfl
  have haction : text "action=" = text "action" ++ text "=" := by decide +kernel
  have hmarks : scopeMarks = [text "&" ++ text "actor" ++ text "=", text "&" ++ text "org" ++ text "=",
      text "&" ++ text "route" ++ text "=" ++ text "audit" ++ text "&" ++ text "since" ++ text "=",
      text "&" ++ text "target" ++ text "=", text "&" ++ text "until" ++ text "="] := by decide +kernel
  rw [Pagination.canonicalScope, hsorted, hmarks, haction]
  simp only [List.map_cons, List.map_nil, Option.elim_some, Pagination.SortKey.toText, List.intercalate, List.intersperse,
    List.flatten_cons, List.flatten_nil, joined, scopeValues, List.append_assoc, List.append_nil]
  rfl

theorem unbordered_scopeMarks : ∀ mark ∈ scopeMarks, Unbordered mark := by decide +kernel

theorem canonicalScope_eq_iff {orgId orgId' : JsString} {query query' : AuditQuery} :
    Pagination.canonicalScope (auditScopeParts orgId query) = Pagination.canonicalScope (auditScopeParts orgId' query') ↔
      Relation.EqvGen (Recut scopeMarks) (scopeValues orgId query) (scopeValues orgId' query') := by
  rw [canonicalScope_audit, canonicalScope_audit, List.append_cancel_left_eq]
  exact joined_eq_iff unbordered_scopeMarks rfl rfl

theorem auditCursorScope_ne_nil (orgId : JsString) (query : AuditQuery) : auditCursorScope orgId query ≠ [] := by
  intro h
  have hdigits : Nat.toDigits 16 (Pagination.fnv1a32 (Pagination.canonicalScope (auditScopeParts orgId query))) = [] := by
    have hempty := @ofString_injective _ "" h
    rw [← String.ofList_nil] at hempty
    exact (List.append_eq_nil_iff.mp (String.ofList_injective hempty)).2
  exact Nat.toDigits_ne_nil hdigits

section Bound

variable (platform : Platform) {orgId orgId' : JsString} {query query' : AuditQuery}

theorem decodeBoundAuditCursor_other {scope scope' : JsString} (h : scope ≠ scope') (sequence : ℕ) :
    decodeBoundAuditCursor platform (encodeBoundAuditCursor sequence scope) scope' = .error .mismatch := by
  obtain ⟨hv, hseq, hscope⟩ := get_boundCursor sequence scope
  simp only [decodeBoundAuditCursor, encodeBoundAuditCursor, fromBase64Url_toBase64Url, parse_stringify,
    Option.getD_some, hv, hseq, hscope, Decimal.value_ofNat]
  simp [h]

theorem nextCursor_bound {entries : List AuditEntry} {page : PageRequest} {scope : JsString} (hscope : scope ≠ [])
    {issued : AuditPage} {cursor : List Char}
    (hissued : queryAuditEntries platform entries orgId query { page with scope := some scope } = .ok issued)
    (hcursor : issued.nextCursor = some cursor) : ∃ sequence, cursor = encodeBoundAuditCursor sequence scope := by
  have htruthy : truthy (some scope) = some scope := by simp [truthy, Option.filter, hscope]
  unfold queryAuditEntries at hissued
  dsimp only at hissued
  rw [htruthy] at hissued
  cases hafter : pageAfter platform page.cursor (some scope) with
  | error e =>
    rw [hafter] at hissued
    cases hissued
  | ok after =>
    rw [hafter] at hissued
    cases hissued
    obtain ⟨last, -, rfl⟩ := Option.map_eq_some_iff.mp hcursor
    exact ⟨last.sequence, rfl⟩

theorem pageAfter_bound {scope scope' : JsString} (hscope : scope' ≠ []) (sequence : ℕ) :
    pageAfter platform (some (encodeBoundAuditCursor sequence scope)) (truthy (some scope')) =
      (decodeBoundAuditCursor platform (encodeBoundAuditCursor sequence scope) scope').map some := by
  have htruthy : truthy (some scope') = some scope' := by simp [truthy, Option.filter, hscope]
  rw [htruthy, pageAfter]
  exact encodeBoundAuditCursor_ne_nil sequence scope

theorem queryAuditEntries_same {entries : List AuditEntry} {page : PageRequest} {scope : JsString} (hscope : scope ≠ [])
    (sequence : ℕ) : ∃ accepted, queryAuditEntries platform entries orgId query
      { page with cursor := some (encodeBoundAuditCursor sequence scope), scope := some scope } = .ok accepted := by
  unfold queryAuditEntries
  dsimp only
  rw [pageAfter_bound platform hscope, decodeBoundAuditCursor_encode]
  exact ⟨_, rfl⟩

theorem queryAuditEntries_other {entries : List AuditEntry} {page : PageRequest} {scope scope' : JsString}
    (hscope : scope' ≠ []) (h : scope ≠ scope') (sequence : ℕ) : queryAuditEntries platform entries orgId query
      { page with cursor := some (encodeBoundAuditCursor sequence scope), scope := some scope' } = .error .mismatch := by
  unfold queryAuditEntries
  dsimp only
  rw [pageAfter_bound platform hscope, decodeBoundAuditCursor_other platform h]
  rfl

theorem bound_cursor_rejected_iff {entries entries' : List AuditEntry} {page page' : PageRequest} {issued : AuditPage}
    {cursor : List Char}
    (hcollision : auditCursorScope orgId query = auditCursorScope orgId' query' →
      Pagination.canonicalScope (auditScopeParts orgId query) = Pagination.canonicalScope (auditScopeParts orgId' query'))
    (hissued : queryAuditEntries platform entries orgId query
      { page with scope := some (auditCursorScope orgId query) } = .ok issued)
    (hcursor : issued.nextCursor = some cursor) :
    queryAuditEntries platform entries' orgId' query'
      { page' with cursor := some cursor, scope := some (auditCursorScope orgId' query') } = .error .mismatch ↔
      ¬Relation.EqvGen (Recut scopeMarks) (scopeValues orgId query) (scopeValues orgId' query') := by
  obtain ⟨sequence, rfl⟩ := nextCursor_bound platform (auditCursorScope_ne_nil orgId query) hissued hcursor
  rw [← canonicalScope_eq_iff]
  constructor
  · intro hrejected heq
    have hscope : auditCursorScope orgId query = auditCursorScope orgId' query' := congrArg Pagination.fnv1a32Hex heq
    rw [hscope] at hrejected
    obtain ⟨accepted, haccepted⟩ := queryAuditEntries_same platform (auditCursorScope_ne_nil orgId' query') sequence
    rw [haccepted] at hrejected
    cases hrejected
  · intro hne
    exact queryAuditEntries_other platform (auditCursorScope_ne_nil orgId' query') (fun heq => hne (hcollision heq)) sequence

end Bound

section Sample

def loggedEntry (sequence : ℕ) : AuditEntry where
  sequence
  timestamp := text "2026-01-01T00:00:00.000Z"
  actor := text "a&org=b"
  action := text AuditAction.runDelete.name
  target := text "run-1"
  metadata := .null
  orgId := some (text "c")
  prevHash := genesisHash
  hash := genesisHash

def actorQuery (actor : String) : AuditQuery := { actor := some (text actor) }

def loggedPage : Except CursorError AuditPage :=
  queryAuditEntries samplePlatform [loggedEntry 0, loggedEntry 1] (text "c") (actorQuery "a&org=b")
    { limit := some 1, scope := some (auditCursorScope (text "c") (actorQuery "a&org=b")) }

theorem loggedPage_next : ∃ issued cursor, loggedPage = .ok issued ∧ issued.nextCursor = some cursor := by
  have hnext : (loggedPage.toOption.bind AuditPage.nextCursor).isSome = true := by decide +kernel
  cases hpage : loggedPage with
  | error e =>
    rw [hpage] at hnext
    cases hnext
  | ok issued =>
    rw [hpage] at hnext
    obtain ⟨cursor, hcursor⟩ := Option.isSome_iff_exists.mp hnext
    exact ⟨issued, cursor, rfl, hcursor⟩

theorem loggedPage_rejected_iff : ∃ issued cursor, loggedPage = .ok issued ∧ issued.nextCursor = some cursor ∧
    (queryAuditEntries samplePlatform [] (text "c") (actorQuery "bob")
      { cursor := some cursor, scope := some (auditCursorScope (text "c") (actorQuery "bob")) } = .error .mismatch ↔
      ¬Relation.EqvGen (Recut scopeMarks) (scopeValues (text "c") (actorQuery "a&org=b"))
        (scopeValues (text "c") (actorQuery "bob"))) := by
  obtain ⟨issued, cursor, hissued, hcursor⟩ := loggedPage_next
  have hcollision : auditCursorScope (text "c") (actorQuery "a&org=b") = auditCursorScope (text "c") (actorQuery "bob") →
      Pagination.canonicalScope (auditScopeParts (text "c") (actorQuery "a&org=b")) =
        Pagination.canonicalScope (auditScopeParts (text "c") (actorQuery "bob")) := by decide +kernel
  exact ⟨issued, cursor, hissued, hcursor, @bound_cursor_rejected_iff samplePlatform _ _ _ _ _ [] { limit := some 1 } { } _ _
    hcollision hissued hcursor⟩

theorem loggedPage_accepted : ∃ issued cursor, loggedPage = .ok issued ∧ issued.nextCursor = some cursor ∧
    scopeValues (text "c") (actorQuery "a&org=b") ≠ scopeValues (text "b&org=c") (actorQuery "a") ∧
    Pagination.canonicalScope (auditScopeParts (text "c") (actorQuery "a&org=b")) =
      Pagination.canonicalScope (auditScopeParts (text "b&org=c") (actorQuery "a")) ∧
    ∃ accepted, queryAuditEntries samplePlatform [] (text "b&org=c") (actorQuery "a")
      { cursor := some cursor, scope := some (auditCursorScope (text "b&org=c") (actorQuery "a")) } = .ok accepted := by
  -- actor `a&org=b` of organisation `c` and actor `a` of organisation `b&org=c`
  obtain ⟨issued, cursor, hissued, hcursor⟩ := loggedPage_next
  have hcanonical : Pagination.canonicalScope (auditScopeParts (text "c") (actorQuery "a&org=b")) =
      Pagination.canonicalScope (auditScopeParts (text "b&org=c") (actorQuery "a")) := by decide +kernel
  refine ⟨issued, cursor, hissued, hcursor, by decide +kernel, hcanonical, ?_⟩
  obtain ⟨sequence, rfl⟩ := @nextCursor_bound samplePlatform _ _ _ { limit := some 1 } _
    (auditCursorScope_ne_nil (text "c") (actorQuery "a&org=b")) _ _ hissued hcursor
  have hscope : auditCursorScope (text "c") (actorQuery "a&org=b") = auditCursorScope (text "b&org=c") (actorQuery "a") :=
    congrArg Pagination.fnv1a32Hex hcanonical
  rw [hscope]
  exact @queryAuditEntries_same samplePlatform _ _ [] { } _ (auditCursorScope_ne_nil _ _) sequence

end Sample

end CrashLab.Audit
