import CrashLab.HealthLog

namespace CrashLab.TornLog

open HealthLog Texts

variable {Measures : Type} (serde : Serde Measures)

structure Compact : Prop where
  newline : ∀ value line, serde.valueToString value = .ok line → '\n' ∉ line.toList
  carriageReturn : ∀ value line, serde.valueToString value = .ok line → '\r' ∉ line.toList
  inked : ∀ value line, serde.valueToString value = .ok line → ∃ c ∈ line.toList, isWhitespace c = false

def parsed (line : List Char) : Option (HealthSnapshot Measures) := (fromJsonLine serde (String.ofList line)).toOption

def unreadable (line : List Char) : Bool := (parsed serde line).isNone

theorem readLines_eq (snapshots : List (HealthSnapshot Measures)) {corruptLines : ℕ}
    (h : corruptLines ≤ maxCorruptHealthSnapshotLines) (found : List (List Char)) :
    readLines serde snapshots corruptLines found =
      if corruptLines + found.countP (unreadable serde) ≤ maxCorruptHealthSnapshotLines then
        .ok (snapshots ++ found.filterMap (parsed serde), corruptLines + found.countP (unreadable serde))
      else .error (.corruptLog (maxCorruptHealthSnapshotLines + 1) maxCorruptHealthSnapshotLines) := by
  induction found generalizing snapshots corruptLines with
  | nil => simp only [readLines, List.countP_nil, Nat.add_zero, h, ↓reduceIte, List.filterMap_nil, List.append_nil]
  | cons line found ih =>
    rw [readLines]
    cases hline : fromJsonLine serde (String.ofList line) with
    | ok snapshot =>
      have hparsed : parsed serde line = some snapshot := by rw [parsed, hline]; rfl
      have hreadable : unreadable serde line = false := by rw [unreadable, hparsed]; rfl
      simp only [ih _ h, List.countP_cons, hreadable, Bool.false_eq_true, ↓reduceIte, Nat.add_zero,
        List.filterMap_cons, hparsed, List.append_assoc, List.singleton_append]
    | error e =>
      have hparsed : parsed serde line = none := by rw [parsed, hline]; rfl
      have hunreadable : unreadable serde line = true := by rw [unreadable, hparsed]; rfl
      simp only [List.countP_cons, hunreadable, ↓reduceIte, List.filterMap_cons, hparsed]
      split_ifs with hover
      · omega
      · have heq : corruptLines = maxCorruptHealthSnapshotLines := by omega
        rw [heq]
      · rw [ih _ (Nat.le_of_not_lt hover), if_pos (by omega)]
        simp only [Nat.add_assoc, Nat.add_comm 1]
      · rw [ih _ (Nat.le_of_not_lt hover), if_neg (by omega)]

def endedLines (contents : String) : List (List Char) :=
  (lines (complete contents.toList)).filter fun line => !isBlank line

def joinedLine (contents line : String) : List Char := torn contents.toList ++ line.toList

/-- The written line joined to the torn part is the newest readable line and carries the snapshot, or it is not
readable and the newest line before it carries that snapshot already; and no more lines are corrupt than the
reader tolerates. -/
def Survives (contents line : String) (snapshot : HealthSnapshot Measures) : Prop :=
  (endedLines contents ++ [joinedLine contents line]).countP (unreadable serde) ≤ maxCorruptHealthSnapshotLines ∧
    (parsed serde (joinedLine contents line) = some snapshot ∨
      parsed serde (joinedLine contents line) = none ∧
        ((endedLines contents).filterMap (parsed serde)).getLast? = some snapshot)

theorem toJsonLine_cases {snapshot : HealthSnapshot Measures} {text : String}
    (h : toJsonLine serde snapshot = .ok text) :
    ∃ value line, serde.valueToString value = .ok line ∧ text = line.push '\n' := by
  unfold toJsonLine at h
  cases hvalue : serde.toValue snapshot with
  | error e =>
    rw [hvalue] at h
    cases h
  | ok value =>
    rw [hvalue] at h
    cases hline : serde.valueToString (Redact.redactJsonValue serde.redactText value).1 with
    | error e =>
      simp only [Except.mapError, bind, Except.bind, hline] at h
      cases h
    | ok line =>
      simp only [Except.mapError, bind, Except.bind, hline, pure, Except.pure, Except.ok.injEq] at h
      exact ⟨_, line, hline, h.symm⟩

variable {serde} {contents line : String}

theorem lines_after_append (hnewline : '\n' ∉ line.toList) (hreturn : '\r' ∉ line.toList)
    (hinked : ∃ c ∈ line.toList, isWhitespace c = false) :
    (lines (contents ++ line.push '\n').toList).filter (fun line => !isBlank line) =
      endedLines contents ++ [joinedLine contents line] := by
  have htext : (contents ++ line.push '\n').toList =
      complete contents.toList ++ (joinedLine contents line ++ ['\n']) := by
    rw [String.toList_append, String.toList_push, joinedLine, ← List.append_assoc, ← List.append_assoc,
      ← List.append_assoc, complete_append_torn]
  have hjoined : '\n' ∉ joinedLine contents line := by
    rw [joinedLine, List.mem_append, not_or]
    exact ⟨newline_not_mem_torn _, hnewline⟩
  have hlast : (joinedLine contents line).getLast? ≠ some '\r' := by
    obtain ⟨c, hc, -⟩ := hinked
    have hne : line.toList ≠ [] := List.ne_nil_of_mem hc
    rw [joinedLine, List.getLast?_append_of_ne_nil _ hne]
    exact fun h => hreturn (List.mem_of_getLast? h)
  have hblank : isBlank (joinedLine contents line) = false := by
    obtain ⟨c, hc, hwhite⟩ := hinked
    rw [isBlank, decide_eq_false_iff_not]
    intro hnil
    have hc' := isWhitespace_of_trim_eq_nil hnil c (List.mem_append_right _ hc)
    rw [hwhite] at hc'
    cases hc'
  rw [htext, lines_append_line (complete_closed _) hjoined hlast, List.filter_append,
    List.filter_singleton, hblank, endedLines]
  rfl

theorem readLatest_of_newline {text : String} (h : text.toList.getLast? = some '\n') :
    readLatestHealthSnapshot serde (some text.toByteArray) =
      if ((lines text.toList).filter fun line => !isBlank line).countP (unreadable serde) ≤
          maxCorruptHealthSnapshotLines then
        .ok (((lines text.toList).filter fun line => !isBlank line).filterMap (parsed serde)).getLast?
      else .error (.corruptLog (maxCorruptHealthSnapshotLines + 1) maxCorruptHealthSnapshotLines) := by
  have hwhole : ¬(text.toList ≠ [] ∧ text.toList.getLast? ≠ some '\n') := fun hne => hne.2 h
  simp only [readLatestHealthSnapshot, readHealthSnapshotLog, fromUTF8?_toByteArray, hwhole, decide_false,
    Bool.false_eq_true, ↓reduceIte]
  rw [readLines_eq serde [] (Nat.zero_le _), Nat.zero_add, List.nil_append]
  split_ifs <;> rfl

theorem getLast?_filterMap_concat {α β : Type*} (f : α → Option β) (l : List α) (a : α) :
    ((l ++ [a]).filterMap f).getLast? = (f a).or (l.filterMap f).getLast? := by
  cases h : f a with
  | none => simp [h]
  | some b => simp [h]

theorem readLatest_iff_survives (hnewline : '\n' ∉ line.toList) (hreturn : '\r' ∉ line.toList)
    (hinked : ∃ c ∈ line.toList, isWhitespace c = false) (snapshot : HealthSnapshot Measures) :
    readLatestHealthSnapshot serde (some (contents ++ line.push '\n').toByteArray) = .ok (some snapshot) ↔
      Survives serde contents line snapshot := by
  have hlast : (contents ++ line.push '\n').toList.getLast? = some '\n' := by
    rw [String.toList_append, String.toList_push, ← List.append_assoc, List.getLast?_concat]
  rw [readLatest_of_newline hlast, lines_after_append hnewline hreturn hinked, getLast?_filterMap_concat, Survives]
  split_ifs with hcorrupt
  · rw [and_iff_right hcorrupt, Except.ok.injEq]
    cases parsed serde (joinedLine contents line) with
    | none => simp only [Option.none_or, reduceCtorEq, true_and, false_or]
    | some other => simp only [Option.some_or, reduceCtorEq, false_and, or_false]
  · exact iff_of_false nofun fun survives => hcorrupt survives.1

theorem latest_after_append_iff (compact : Compact serde) (file : Option ByteArray)
    (snapshot : HealthSnapshot Measures) {after : ByteArray}
    (happend : appendHealthSnapshot serde file snapshot = .ok after) :
    readLatestHealthSnapshot serde (some after) = .ok (some snapshot) ↔
      ∃ contents line, String.fromUTF8? (file.getD ByteArray.empty) = some contents ∧
        toJsonLine serde snapshot = .ok (line.push '\n') ∧ Survives serde contents line snapshot := by
  unfold appendHealthSnapshot at happend
  cases hjson : toJsonLine serde snapshot with
  | error e =>
    rw [hjson] at happend
    cases happend
  | ok text =>
    rw [hjson] at happend
    obtain ⟨value, line, hline, rfl⟩ := toJsonLine_cases serde hjson
    have hafter : file.getD ByteArray.empty ++ (line.push '\n').toByteArray = after := Except.ok.inj happend
    subst hafter
    cases hcontents : String.fromUTF8? (file.getD ByteArray.empty) with
    | none =>
      have hunread : readLatestHealthSnapshot serde
          (some (file.getD ByteArray.empty ++ (line.push '\n').toByteArray)) = .error .io := by
        simp only [readLatestHealthSnapshot, readHealthSnapshotLog, fromUTF8?_append, hcontents, Option.map_none]
        rfl
      rw [hunread]
      simp
    | some contents =>
      rw [← toByteArray_of_fromUTF8? hcontents, ← String.toByteArray_append,
        readLatest_iff_survives (compact.newline value line hline) (compact.carriageReturn value line hline)
          (compact.inked value line hline)]
      constructor
      · exact fun survives => ⟨contents, line, rfl, rfl, survives⟩
      · rintro ⟨contents', line', hcontents', hline', survives⟩
        rw [Option.some_inj] at hcontents'
        have hpush := Except.ok.inj hline'
        have hchars : line = line' := by
          have hlist := congrArg String.toList hpush
          rw [String.toList_push, String.toList_push, List.append_cancel_right_eq] at hlist
          exact String.toList_inj.mp hlist
        rwa [hcontents', hchars]

section LatestLine

variable (serde)

def SkipsReturn : Prop :=
  ∀ line, (serde.valueFromStr (line.push '\r')).toOption = (serde.valueFromStr line).toOption

def Agrees : Except HealthSnapshotError (Option (HealthSnapshot Measures)) →
    Except HealthSnapshotError (Option String) → Prop
  | .ok none, .ok none => True
  | .ok (some snapshot), .ok (some line) => fromJsonLine serde line = .ok snapshot
  | .error e, .error e' => e = e'
  | _, _ => False

def lastReadable (contents : String) : Option (List Char) :=
  (endedLines contents).reverse.find? fun line => !unreadable serde line

def carrier (contents : String) (sequence : ℕ) (line : List Char) : List Char :=
  if !isBlank (torn contents.toList) && hasSequence serde sequence (torn contents.toList) then torn contents.toList
  else line

/-- The redacted carrier of the newest sequence number still is the newest snapshot. -/
def CarrierKept (contents : String) : Prop :=
  ∀ line snapshot, lastReadable serde contents = some line → parsed serde line = some snapshot →
    fromJsonLine serde (serde.redactText (String.ofList (carrier serde contents snapshot.sequence line))) = .ok snapshot

theorem parsed_eq (line : List Char) : parsed serde line = (serde.valueFromStr (String.ofList line)).toOption.bind
    fun value => (serde.fromValue (Redact.redactJsonValue serde.redactText value).1).toOption.bind
      fun snapshot => if supportedHealthSnapshotSchemas.contains snapshot.schemaVersion then some snapshot else none := by
  rw [parsed, fromJsonLine]
  cases serde.valueFromStr (String.ofList line) with
  | error e => rfl
  | ok value =>
    simp only [Except.mapError, bind, Except.bind, Except.toOption, Option.bind_some]
    cases serde.fromValue (Redact.redactJsonValue serde.redactText value).1 with
    | error e => rfl
    | ok snapshot =>
      simp only [Option.bind_some]
      split_ifs <;> rfl

theorem parsed_of_steps {line : String} {value redacted : Redact.JsonValue} {snapshot : HealthSnapshot Measures}
    (hvalue : serde.valueFromStr line = .ok value)
    (hredacted : (Redact.redactJsonValue serde.redactText value).1 = redacted)
    (hread : serde.fromValue redacted = .ok snapshot)
    (hschema : supportedHealthSnapshotSchemas.contains snapshot.schemaVersion = true) :
    parsed serde line.toList = some snapshot := by
  rw [parsed_eq, String.ofList_toList, hvalue, Except.toOption, Option.bind_some, hredacted, hread, Except.toOption,
    Option.bind_some, if_pos hschema]

theorem fromJsonLine_of_parsed {line : List Char} {snapshot : HealthSnapshot Measures}
    (h : parsed serde line = some snapshot) : fromJsonLine serde (String.ofList line) = .ok snapshot := by
  rw [parsed] at h
  cases hline : fromJsonLine serde (String.ofList line) with
  | error e =>
    rw [hline] at h
    cases h
  | ok other =>
    rw [hline] at h
    rw [Option.some.inj h]

theorem hasSequence_eq (sequence : ℕ) (line : List Char) :
    hasSequence serde sequence line = (parsed serde line).any fun snapshot => snapshot.sequence = sequence := by
  rw [hasSequence, parsed]
  cases fromJsonLine serde (String.ofList line) <;> rfl

theorem lastReadable_cases (contents : String) :
    ((endedLines contents).filterMap (parsed serde)).getLast? = none ∧ lastReadable serde contents = none ∨
      ∃ line snapshot, lastReadable serde contents = some line ∧ parsed serde line = some snapshot ∧
        ((endedLines contents).filterMap (parsed serde)).getLast? = some snapshot := by
  rw [List.getLast?_filterMap, lastReadable]
  induction (endedLines contents).reverse with
  | nil => exact Or.inl ⟨rfl, rfl⟩
  | cons line found ih =>
    cases hline : parsed serde line with
    | none =>
      have hunreadable : unreadable serde line = true := by rw [unreadable, hline]; rfl
      rwa [List.findSome?_cons, hline, List.find?_cons_of_neg (by simp [hunreadable])]
    | some snapshot =>
      have hreadable : unreadable serde line = false := by rw [unreadable, hline]; rfl
      right
      refine ⟨line, snapshot, ?_, hline, ?_⟩
      · rw [List.find?_cons_of_pos (by simp [hreadable])]
      · rw [List.findSome?_cons, hline]

variable {serde}

theorem parsed_return (skips : SkipsReturn serde) (line : List Char) :
    parsed serde (line ++ ['\r']) = parsed serde line := by
  rw [parsed_eq, parsed_eq, String.ofList_append]
  have hpush : String.ofList line ++ String.ofList ['\r'] = (String.ofList line).push '\r' := by
    apply String.toList_inj.mp
    simp
  rw [hpush, skips]

theorem isBlank_iff (line : List Char) : isBlank line = true ↔ ∀ c ∈ line, isWhitespace c = true := by
  rw [isBlank, decide_eq_true_iff]
  constructor
  · exact isWhitespace_of_trim_eq_nil
  · intro h
    rw [trim, List.dropWhile_eq_nil_iff.mpr h]
    rfl

theorem isBlank_return (line : List Char) : isBlank (line ++ ['\r']) = isBlank line := by
  rw [Bool.eq_iff_iff, isBlank_iff, isBlank_iff, List.forall_mem_append]
  apply and_iff_left
  simp [isWhitespace]

theorem parsed_chomp (skips : SkipsReturn serde) (line : List Char) :
    ([chomp (line ++ ['\n'])].filter fun line => !isBlank line).map (parsed serde) =
      ((if line = [] then [] else [line]).filter fun line => !isBlank line).map (parsed serde) := by
  split_ifs with hnil
  · rw [hnil]
    rfl
  · by_cases hreturn : line.getLast? = some '\r'
    · have hchomp : chomp (line ++ ['\n']) = line.dropLast := by
        rw [chomp, List.getLast?_concat, if_pos rfl, List.dropLast_concat, if_pos hreturn]
      obtain ⟨shorter, rfl⟩ := List.getLast?_eq_some_iff.mp hreturn
      rw [hchomp, List.dropLast_concat, List.filter_singleton, List.filter_singleton, isBlank_return]
      cases isBlank shorter with
      | true => rfl
      | false => simp only [Bool.not_false, cond_true, List.map_singleton, parsed_return skips]
    · rw [chomp_line hreturn]

theorem parsed_dropLast (skips : SkipsReturn serde) {text : List Char} (closed : Closed text) :
    ((lines text.dropLast).filter fun line => !isBlank line).map (parsed serde) =
      ((lines text).filter fun line => !isBlank line).map (parsed serde) := by
  obtain rfl | hlast := closed
  · rfl
  · obtain ⟨before, rfl⟩ := List.getLast?_eq_some_iff.mp hlast
    have hbare := newline_not_mem_torn before
    have hended : lines (before ++ ['\n']) = lines (complete before) ++ [chomp (torn before ++ ['\n'])] := by
      conv_lhs => rw [← complete_append_torn before, List.append_assoc]
      rw [lines, splitInclusive_append (complete_closed before), splitInclusive_line hbare, List.map_append,
        List.map_singleton, lines]
    rw [List.dropLast_concat, hended, lines_eq before, List.filter_append, List.filter_append, List.map_append,
      List.map_append, parsed_chomp skips]

theorem readLog_eq (skips : SkipsReturn serde) (contents : String) :
    (readHealthSnapshotLog serde (some contents.toByteArray)).map (·.snapshots) =
      if (endedLines contents).countP (unreadable serde) ≤ maxCorruptHealthSnapshotLines then
        .ok ((endedLines contents).filterMap (parsed serde))
      else .error (.corruptLog (maxCorruptHealthSnapshotLines + 1) maxCorruptHealthSnapshotLines) := by
  have hlines : ((lines (if decide (contents.toList ≠ [] ∧ contents.toList.getLast? ≠ some '\n') then
      (complete contents.toList).dropLast else contents.toList)).filter fun line => !isBlank line).map (parsed serde) =
      (endedLines contents).map (parsed serde) := by
    rw [endedLines]
    split_ifs with htruncated
    · exact parsed_dropLast skips (complete_closed _)
    · have hclosed : Closed contents.toList := by
        rw [decide_eq_true_iff, not_and_or, not_not, not_not] at htruncated
        exact htruncated
      rw [complete_of_closed hclosed]
  have hcount (found : List (List Char)) :
      found.countP (unreadable serde) = (found.map (parsed serde)).countP Option.isNone := by
    rw [List.countP_map]
    rfl
  have hfilter (found : List (List Char)) :
      found.filterMap (parsed serde) = (found.map (parsed serde)).filterMap id := by
    rw [List.filterMap_map]
    rfl
  simp only [readHealthSnapshotLog, fromUTF8?_toByteArray]
  rw [readLines_eq serde [] (Nat.zero_le _), Nat.zero_add, List.nil_append, hcount, hfilter, hlines, ← hcount,
    ← hfilter]
  split_ifs <;> rfl

theorem find?_of_find? {α : Type*} {p q : α → Bool} {l : List α} {a : α} (h : l.find? p = some a)
    (himp : ∀ b, q b = true → p b = true) (ha : q a = true) : l.find? q = some a := by
  obtain ⟨-, before, after, rfl, hbefore⟩ := List.find?_eq_some_iff_append.mp h
  apply List.find?_eq_some_iff_append.mpr
  refine ⟨ha, before, after, rfl, ?_⟩
  intro b hb
  have hp := hbefore b hb
  rw [Bool.not_eq_eq_eq_not, Bool.not_true] at hp ⊢
  exact Bool.eq_false_iff.mpr fun hq => Bool.eq_false_iff.mp hp (himp b hq)

theorem find?_carrier {contents : String} {line : List Char} {snapshot : HealthSnapshot Measures}
    (hlast : lastReadable serde contents = some line) (hline : parsed serde line = some snapshot) :
    ((lines contents.toList).reverse.filter fun line => !isBlank line).find? (hasSequence serde snapshot.sequence) =
      some (carrier serde contents snapshot.sequence line) := by
  have hended : (endedLines contents).reverse.find? (hasSequence serde snapshot.sequence) = some line := by
    apply find?_of_find? hlast
    · intro other hother
      rw [hasSequence_eq] at hother
      rw [unreadable]
      cases hparsed : parsed serde other with
      | none =>
        rw [hparsed] at hother
        cases hother
      | some _ => rfl
    · rw [hasSequence_eq, hline]
      simp
  have htorn : (((if torn contents.toList = [] then [] else [torn contents.toList]).reverse.filter
      fun line => !isBlank line).find? (hasSequence serde snapshot.sequence)) =
      if !isBlank (torn contents.toList) && hasSequence serde snapshot.sequence (torn contents.toList) then
        some (torn contents.toList) else none := by
    split_ifs with hnil htaken htaken
    · rw [hnil] at htaken
      cases htaken
    · rfl
    · rw [Bool.and_eq_true] at htaken
      rw [List.reverse_singleton, List.filter_singleton, htaken.1, cond_true, List.find?_cons_of_pos htaken.2]
    · rw [List.reverse_singleton, List.filter_singleton]
      cases hblank : isBlank (torn contents.toList) with
      | true => rfl
      | false =>
        rw [hblank, Bool.not_false, Bool.true_and] at htaken
        rw [Bool.not_false, cond_true, List.find?_cons_of_neg htaken, List.find?_nil]
  rw [lines_eq, List.reverse_append, List.filter_append, List.find?_append, htorn, List.filter_reverse,
    ← endedLines, hended, carrier]
  split_ifs <;> rfl

theorem agrees_iff_carrierKept (skips : SkipsReturn serde) {contents : String}
    (hcorrupt : (endedLines contents).countP (unreadable serde) ≤ maxCorruptHealthSnapshotLines) :
    Agrees serde (readLatestHealthSnapshot serde (some contents.toByteArray))
        (readLatestHealthSnapshotLine serde (some contents.toByteArray)) ↔ CarrierKept serde contents := by
  have hlog := readLog_eq skips contents
  rw [if_pos hcorrupt] at hlog
  cases hread : readHealthSnapshotLog serde (some contents.toByteArray) with
  | error e =>
    rw [hread] at hlog
    cases hlog
  | ok log =>
    rw [hread] at hlog
    have hsnapshots := Except.ok.inj hlog
    simp only [CarrierKept, readLatestHealthSnapshot, readLatestHealthSnapshotLine, fromUTF8?_toByteArray, hread,
      bind, Except.bind, pure, Except.pure, hsnapshots]
    obtain ⟨hnone, hlast⟩ | ⟨line, snapshot, hlast, hline, hsome⟩ := lastReadable_cases serde contents
    · simp only [hnone, hlast]
      exact iff_of_true trivial nofun
    · simp only [hsome, find?_carrier hlast hline, Option.map_some, hlast, Option.some_inj]
      constructor
      · rintro hagrees line' snapshot' rfl hline'
        rw [hline, Option.some_inj] at hline'
        rw [← hline']
        exact hagrees
      · intro hkept
        exact hkept line snapshot rfl hline

theorem agrees_of_corrupt (skips : SkipsReturn serde) {contents : String}
    (hcorrupt : ¬(endedLines contents).countP (unreadable serde) ≤ maxCorruptHealthSnapshotLines) :
    Agrees serde (readLatestHealthSnapshot serde (some contents.toByteArray))
      (readLatestHealthSnapshotLine serde (some contents.toByteArray)) := by
  have hlog := readLog_eq skips contents
  rw [if_neg hcorrupt] at hlog
  cases hread : readHealthSnapshotLog serde (some contents.toByteArray) with
  | error e =>
    simp only [readLatestHealthSnapshot, readLatestHealthSnapshotLine, fromUTF8?_toByteArray, hread]
    rfl
  | ok log =>
    rw [hread] at hlog
    cases hlog

theorem latestLine_agrees_iff (skips : SkipsReturn serde) (file : Option ByteArray) :
    Agrees serde (readLatestHealthSnapshot serde file) (readLatestHealthSnapshotLine serde file) ↔
      ∀ contents, file.bind String.fromUTF8? = some contents →
        (endedLines contents).countP (unreadable serde) ≤ maxCorruptHealthSnapshotLines →
          CarrierKept serde contents := by
  cases file with
  | none =>
    apply iff_of_true
    · exact trivial
    · intro contents h
      cases h
  | some bytes =>
    rw [Option.bind_some]
    cases hcontents : String.fromUTF8? bytes with
    | none =>
      apply iff_of_true
      · simp only [readLatestHealthSnapshot, readHealthSnapshotLog, readLatestHealthSnapshotLine, hcontents]
        rfl
      · intro contents h
        cases h
    | some contents =>
      simp only [Option.some_inj, forall_eq']
      rw [← toByteArray_of_fromUTF8? hcontents]
      by_cases hcorrupt : (endedLines contents).countP (unreadable serde) ≤ maxCorruptHealthSnapshotLines
      · rw [imp_iff_right hcorrupt, agrees_iff_carrierKept skips hcorrupt]
      · exact iff_of_true (agrees_of_corrupt skips hcorrupt) fun h => absurd h hcorrupt

theorem endedLines_of_torn {line tail : String} (hline : '\n' ∉ line.toList) (hreturn : '\r' ∉ line.toList)
    (hblank : isBlank line.toList = false) (htail : '\n' ∉ tail.toList) :
    endedLines (line.push '\n' ++ tail) = [line.toList] ∧ torn (line.push '\n' ++ tail).toList = tail.toList := by
  have htext : (line.push '\n' ++ tail).toList = (line.toList ++ ['\n']) ++ tail.toList := by
    rw [String.toList_append, String.toList_push]
  have hclosed : Closed (line.toList ++ ['\n']) := Or.inr List.getLast?_concat
  have hlines := lines_append_line (Or.inl rfl) hline fun h => hreturn (List.mem_of_getLast? h)
  rw [List.nil_append] at hlines
  rw [endedLines, htext, complete_append_bare hclosed htail, torn_append_bare hclosed htail, hlines,
    List.filter_append]
  exact ⟨by simp [hblank, lines, splitInclusive], rfl⟩

end LatestLine

section Sample

open Redact

def sample : HealthSnapshot Unit := ⟨3, 1, ()⟩

def sampleText : String :=
  "\x7b\"v\":3,\"run_id\":7,\"sequence\":1,\"emitted_at\":\"2026-01-05T00:00:00Z\",\"status\":\"Healthy\"," ++
  "\"throughput\":\x7b\"cases_per_second\":1.0,\"total_cases\":1,\"elapsed_secs\":1.0\x7d," ++
  "\"failures\":\x7b\"total_failures\":0,\"unique_signatures\":0,\"failure_rate\":0.0\x7d," ++
  "\"failure_classes\":\x7b\x7d," ++
  "\"queue\":\x7b\"pending\":9,\"in_progress\":0,\"capacity\":10,\"utilization\":0.0\x7d," ++
  "\"budget\":\x7b\"total_seeds\":10,\"processed_seeds\":1,\"remaining_seeds\":9\x7d," ++
  "\"reclaimed_leases\":0,\"zombie_writes\":0\x7d"

def sampleValue : JsonValue :=
  .object
    [("v", .number "3"), ("run_id", .number "7"), ("sequence", .number "1"),
      ("emitted_at", .string "2026-01-05T00:00:00Z"), ("status", .string "Healthy"),
      ("throughput", .object
        [("cases_per_second", .number "1.0"), ("total_cases", .number "1"), ("elapsed_secs", .number "1.0")]),
      ("failures", .object
        [("total_failures", .number "0"), ("unique_signatures", .number "0"), ("failure_rate", .number "0.0")]),
      ("failure_classes", .object []),
      ("queue", .object
        [("pending", .number "9"), ("in_progress", .number "0"), ("capacity", .number "10"),
          ("utilization", .number "0.0")]),
      ("budget", .object
        [("total_seeds", .number "10"), ("processed_seeds", .number "1"), ("remaining_seeds", .number "9")]),
      ("reclaimed_leases", .number "0"), ("zombie_writes", .number "0")]

/-- What `serde_json` does with the sample and with the texts that start or hold it. -/
def sampleSerde : Serde Unit where
  toValue _ := .ok sampleValue
  valueToString _ := .ok sampleText
  valueFromStr text := if text = sampleText then .ok sampleValue else .error "trailing characters"
  fromValue _ := .ok sample
  redactText text := text

theorem sampleText_solid : (sampleText.toList.all fun c => !isWhitespace c) = true ∧ sampleText.toList ≠ [] := by
  unfold sampleText
  iterate 6 rw [String.toList_append]
  iterate 7 rw [String.toList_ofList]
  decide +kernel

theorem sampleText_ink {c : Char} (h : c ∈ sampleText.toList) : isWhitespace c = false := by
  have hsolid := List.all_eq_true.mp sampleText_solid.1 c h
  rwa [Bool.not_eq_eq_eq_not, Bool.not_true] at hsolid

theorem sample_compact : Compact sampleSerde := by
  refine ⟨?_, ?_, ?_⟩
  all_goals
    intro value line h
    rw [← Except.ok.inj h]
  · intro hnewline
    have hink := sampleText_ink hnewline
    revert hink
    decide
  · intro hreturn
    have hink := sampleText_ink hreturn
    revert hink
    decide
  · obtain ⟨c, hc⟩ := List.exists_mem_of_ne_nil _ sampleText_solid.2
    exact ⟨c, hc, sampleText_ink hc⟩

theorem sample_append (file : Option ByteArray) : appendHealthSnapshot sampleSerde file sample =
    .ok (file.getD ByteArray.empty ++ (sampleText.push '\n').toByteArray) := rfl

theorem parsed_sampleText : parsed sampleSerde sampleText.toList = some sample := by
  rw [parsed, String.ofList_toList]
  simp only [fromJsonLine, sampleSerde, ↓reduceIte]
  rfl

theorem parsed_of_ne {text : List Char} (h : text ≠ sampleText.toList) : parsed sampleSerde text = none := by
  have hne : String.ofList text ≠ sampleText := by
    intro heq
    exact h (by rw [← heq, String.toList_ofList])
  rw [parsed]
  simp only [fromJsonLine, sampleSerde, hne, ↓reduceIte]
  rfl

theorem sample_survives : Survives sampleSerde "" sampleText sample := by
  have htorn : torn "".toList = [] := by decide
  have hjoined : joinedLine "" sampleText = sampleText.toList := by rw [joinedLine, htorn, List.nil_append]
  have hended : endedLines "" = [] := by decide
  rw [Survives, hjoined, hended, List.nil_append, List.countP_singleton, unreadable, parsed_sampleText]
  exact ⟨by decide, Or.inl rfl⟩

theorem sample_latest_of_empty :
    readLatestHealthSnapshot sampleSerde (some (ByteArray.empty ++ (sampleText.push '\n').toByteArray)) =
      .ok (some sample) :=
  (latest_after_append_iff sample_compact none sample (sample_append none)).mpr
    ⟨"", sampleText, fromUTF8?_toByteArray "", rfl, sample_survives⟩

def tornText : String := "\x7b\"v\":3,\"run_id"

theorem torn_log_loses_snapshot : ¬∀ after,
    appendHealthSnapshot sampleSerde (some tornText.toByteArray) sample = .ok after →
      readLatestHealthSnapshot sampleSerde (some after) = .ok (some sample) := by
  intro h
  have hread := h _ (sample_append _)
  rw [Option.getD_some, ← String.toByteArray_append,
    readLatest_iff_survives (sample_compact.newline .null _ rfl) (sample_compact.carriageReturn .null _ rfl)
      (sample_compact.inked .null _ rfl)] at hread
  have hended : endedLines tornText = [] := by decide
  have hjoined : parsed sampleSerde (joinedLine tornText sampleText) = none := by
    apply parsed_of_ne
    intro heq
    have hlength := congrArg List.length heq
    rw [joinedLine, List.length_append] at hlength
    have htorn : (torn tornText.toList).length = 14 := by decide
    omega
  obtain ⟨-, hparsed | ⟨-, hearlier⟩⟩ := hread
  · rw [hjoined] at hparsed
    cases hparsed
  · rw [hended] at hearlier
    cases hearlier

def olderText : String := String.ofList (sampleText.toList.set 5 '2')

def sampleFields : List (String × JsonValue) :=
  match sampleValue with
  | .object (_ :: fields) => fields
  | _ => []

def olderValue : JsonValue := .object (("v", .number "2") :: sampleFields)

def older : HealthSnapshot Unit := ⟨2, 1, ()⟩

/-- What `serde_json` does with the sample and the older sample, and with the texts that start them. -/
def olderSerde : Serde Unit where
  toValue snapshot := .ok (if snapshot = older then olderValue else sampleValue)
  valueToString value :=
    match value with
    | .object ((_, .number "2") :: _) => .ok olderText
    | _ => .ok sampleText
  valueFromStr text :=
    if trim text.toList = sampleText.toList then .ok sampleValue
    else if trim text.toList = olderText.toList then .ok olderValue
    else .error "EOF while parsing an object"
  fromValue value :=
    match value with
    | .object ((_, .number "2") :: _) => .ok older
    | _ => .ok sample
  redactText text := text

theorem olderSerde_redactText (text : String) : olderSerde.redactText text = text := rfl

theorem older_skips : SkipsReturn olderSerde := by
  intro line
  have htrim : trim (line.push '\r').toList = trim line.toList := by
    rw [String.toList_push, trim_append_return]
  simp only [olderSerde, htrim]

theorem olderText_ne : olderText.toList ≠ sampleText.toList := by
  rw [olderText, String.toList_ofList]
  unfold sampleText
  iterate 6 rw [String.toList_append]
  iterate 7 rw [String.toList_ofList]
  decide +kernel

theorem olderText_ink {c : Char} (h : c ∈ olderText.toList) : isWhitespace c = false := by
  rw [olderText, String.toList_ofList] at h
  obtain h | rfl := List.mem_or_eq_of_mem_set h
  · exact sampleText_ink h
  · decide

theorem newline_not_mem_of_ink {text : List Char} (h : ∀ c ∈ text, isWhitespace c = false) :
    '\n' ∉ text ∧ '\r' ∉ text := by
  constructor
  all_goals
    intro hmem
    have hink := h _ hmem
    revert hink
    decide

theorem redact_version (version : String) (fields : List (String × JsonValue)) : ∃ redacted,
    (redactJsonValue olderSerde.redactText (.object (("v", .number version) :: fields))).1 =
      .object (("v", .number version) :: redacted) := by
  have hentry : (redactEntry olderSerde.redactText "" "v" (.number version)).1 = .number version := by
    simp [redactEntry, JsonValue.isString, redactValue]
  rw [redactJsonValue, redactValue_object, List.map_cons, hentry]
  exact ⟨_, rfl⟩

theorem parsed_sampleText_older : parsed olderSerde sampleText.toList = some sample := by
  have hvalue : olderSerde.valueFromStr sampleText = .ok sampleValue := by
    simp only [olderSerde, trim_of_ink fun c hc => sampleText_ink hc, ↓reduceIte]
  obtain ⟨redacted, hredacted⟩ := redact_version "3" sampleFields
  exact parsed_of_steps olderSerde hvalue hredacted rfl (by decide)

theorem parsed_olderText : parsed olderSerde olderText.toList = some older := by
  have hvalue : olderSerde.valueFromStr olderText = .ok olderValue := by
    simp only [olderSerde, trim_of_ink fun c hc => olderText_ink hc, olderText_ne, ↓reduceIte]
  obtain ⟨redacted, hredacted⟩ := redact_version "2" sampleFields
  exact parsed_of_steps olderSerde hvalue hredacted rfl (by decide)

def rerunLog : String := sampleText.push '\n' ++ olderText

def tornLog : String := sampleText.push '\n' ++ tornText

theorem lines_of_samples {tail : String} (htail : '\n' ∉ tail.toList) :
    endedLines (sampleText.push '\n' ++ tail) = [sampleText.toList] ∧
      torn (sampleText.push '\n' ++ tail).toList = tail.toList := by
  have hink := newline_not_mem_of_ink fun c hc => sampleText_ink hc
  refine endedLines_of_torn hink.1 hink.2 ?_ htail
  rw [isBlank, trim_of_ink fun c hc => sampleText_ink hc, decide_eq_false_iff_not]
  exact sampleText_solid.2

theorem sample_readable {tail : String} (htail : '\n' ∉ tail.toList) :
    (endedLines (sampleText.push '\n' ++ tail)).countP (unreadable olderSerde) ≤ maxCorruptHealthSnapshotLines := by
  rw [(lines_of_samples htail).1, List.countP_singleton, unreadable, parsed_sampleText_older]
  exact Nat.zero_le _

theorem lastReadable_sample {tail : String} (htail : '\n' ∉ tail.toList) :
    lastReadable olderSerde (sampleText.push '\n' ++ tail) = some sampleText.toList := by
  rw [lastReadable, (lines_of_samples htail).1, List.reverse_singleton, List.find?_cons_of_pos]
  rw [unreadable, parsed_sampleText_older]
  rfl

theorem sampleText_long : 14 < sampleText.toList.length := by
  unfold sampleText
  iterate 6 rw [String.toList_append]
  iterate 7 rw [String.toList_ofList]
  decide +kernel

theorem parsed_tornText : parsed olderSerde tornText.toList = none := by
  have hshort : (trim tornText.toList).length = 14 := by decide
  have hsample : trim tornText.toList ≠ sampleText.toList := by
    intro h
    rw [h] at hshort
    exact absurd hshort (Nat.ne_of_gt sampleText_long)
  have holder : trim tornText.toList ≠ olderText.toList := by
    intro h
    rw [h, olderText, String.toList_ofList, List.length_set] at hshort
    exact absurd hshort (Nat.ne_of_gt sampleText_long)
  have hvalue : olderSerde.valueFromStr tornText = .error "EOF while parsing an object" := by
    simp only [olderSerde, hsample, holder, ↓reduceIte]
  rw [parsed_eq, String.ofList_toList, hvalue]
  rfl

theorem tornLog_kept : CarrierKept olderSerde tornLog := by
  have hnewline : '\n' ∉ tornText.toList := by decide
  intro line snapshot hlast hline
  rw [tornLog, lastReadable_sample hnewline, Option.some_inj] at hlast
  have htorn : torn tornLog.toList = tornText.toList := (lines_of_samples hnewline).2
  have hcarrier : carrier olderSerde tornLog snapshot.sequence line = line := by
    rw [carrier, htorn, hasSequence_eq, parsed_tornText, Option.any_none, Bool.and_false]
    rfl
  rw [hcarrier, olderSerde_redactText]
  exact fromJsonLine_of_parsed olderSerde hline

theorem tornLog_agrees : SkipsReturn olderSerde ∧
    Agrees olderSerde (readLatestHealthSnapshot olderSerde (some tornLog.toByteArray))
      (readLatestHealthSnapshotLine olderSerde (some tornLog.toByteArray)) := by
  rw [latestLine_agrees_iff older_skips, and_iff_right older_skips]
  intro contents hcontents hcorrupt
  rw [Option.bind_some, fromUTF8?_toByteArray, Option.some_inj] at hcontents
  rw [← hcontents]
  exact tornLog_kept

theorem rerunLog_disagrees : ¬Agrees olderSerde (readLatestHealthSnapshot olderSerde (some rerunLog.toByteArray))
    (readLatestHealthSnapshotLine olderSerde (some rerunLog.toByteArray)) := by
  have hnewline := (newline_not_mem_of_ink fun c hc => olderText_ink hc).1
  rw [rerunLog, agrees_iff_carrierKept older_skips (sample_readable hnewline)]
  intro hkept
  have hread := hkept sampleText.toList sample (lastReadable_sample hnewline) parsed_sampleText_older
  have hcarrier : carrier olderSerde (sampleText.push '\n' ++ olderText) sample.sequence sampleText.toList =
      olderText.toList := by
    have hblank : isBlank olderText.toList = false := by
      rw [isBlank, trim_of_ink fun c hc => olderText_ink hc, decide_eq_false_iff_not]
      rw [olderText, String.toList_ofList]
      intro hnil
      have hlength := congrArg List.length hnil
      rw [List.length_set, List.length_nil] at hlength
      exact sampleText_solid.2 (List.eq_nil_of_length_eq_zero hlength)
    have hsequence : (some older).any (fun snapshot => snapshot.sequence = sample.sequence) = true := by decide
    rw [carrier, (lines_of_samples hnewline).2, hasSequence_eq, parsed_olderText, hblank, hsequence, if_pos]
    decide
  rw [hcarrier, olderSerde_redactText, fromJsonLine_of_parsed olderSerde parsed_olderText] at hread
  cases hread

end Sample

end CrashLab.TornLog
