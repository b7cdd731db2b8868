import Mathlib.Tactic

namespace CrashLab.Redact

/-- `serde_json::Value`; the entries of an object stand in the order of their insertion. -/
inductive JsonValue where
  | null
  | bool (b : Bool)
  | number (text : String)
  | string (text : String)
  | array (items : List JsonValue)
  | object (entries : List (String × JsonValue))
deriving Repr

namespace JsonValue

def isString : JsonValue → Bool
  | string _ => true
  | _ => false

end JsonValue

def toAsciiLowercase (name : String) : String := name.map Char.toLower

def sensitiveFields : List String :=
  ["authorization", "auth", "token", "api_key", "apikey", "webhook", "secret", "password", "cookie", "private",
    "credential", "seed", "mnemonic", "signature", "key"]

def isSensitiveField (name : String) : Bool :=
  sensitiveFields.any fun pattern => decide (pattern.toList <:+: (toAsciiLowercase name).toList)

-- `redactText` stands for the three regular expressions that scrub a text.
mutual

def redactValue (redactText : String → String) (path : String) : JsonValue → JsonValue × List String
  | .object entries =>
    let (entries, fields) := redactEntries redactText path entries
    (.object entries, fields)
  | .array items =>
    let (items, fields) := redactItems redactText path 0 items
    (.array items, fields)
  | .string text => (.string (redactText text), [])
  | .null => (.null, [])
  | .bool b => (.bool b, [])
  | .number text => (.number text, [])

def redactEntries (redactText : String → String) (path : String) :
    List (String × JsonValue) → List (String × JsonValue) × List String
  | [] => ([], [])
  | (key, value) :: entries =>
    let currentPath := if path = "" then key else path ++ "." ++ key
    let (value, fields) :=
      if isSensitiveField key && value.isString then (JsonValue.string "[REDACTED]", [currentPath])
      else redactValue redactText currentPath value
    let (entries, rest) := redactEntries redactText path entries
    ((key, value) :: entries, fields ++ rest)

def redactItems (redactText : String → String) (path : String) (index : ℕ) :
    List JsonValue → List JsonValue × List String
  | [] => ([], [])
  | item :: items =>
    let (item, fields) := redactValue redactText (path ++ "[" ++ toString index ++ "]") item
    let (items, rest) := redactItems redactText path (index + 1) items
    (item :: items, fields ++ rest)

end

def redactJsonValue (redactText : String → String) (value : JsonValue) : JsonValue × List String :=
  redactValue redactText "" value

def fieldPath (path key : String) : String := if path = "" then key else path ++ "." ++ key

def itemPath (path : String) (index : ℕ) : String := path ++ "[" ++ toString index ++ "]"

section Walk

variable (redactText : String → String)

def redactEntry (path key : String) (value : JsonValue) : JsonValue × List String :=
  if isSensitiveField key && value.isString then (.string "[REDACTED]", [fieldPath path key])
  else redactValue redactText (fieldPath path key) value

theorem redactEntries_eq (path : String) (entries : List (String × JsonValue)) :
    redactEntries redactText path entries =
      (entries.map fun e => (e.1, (redactEntry redactText path e.1 e.2).1),
        entries.flatMap fun e => (redactEntry redactText path e.1 e.2).2) := by
  induction entries with
  | nil => rfl
  | cons e entries ih =>
    obtain ⟨key, value⟩ := e
    rw [redactEntries, ih]
    rfl

theorem redactItems_eq (path : String) (index : ℕ) (items : List JsonValue) :
    redactItems redactText path index items =
      (items.mapIdx fun i item => (redactValue redactText (itemPath path (index + i)) item).1,
        (items.mapIdx fun i item => (redactValue redactText (itemPath path (index + i)) item).2).flatten) := by
  induction items generalizing index with
  | nil => rfl
  | cons item items ih =>
    rw [redactItems, ih]
    simp only [List.mapIdx_cons, List.flatten_cons, Nat.add_zero, Nat.add_assoc, Nat.add_comm 1]
    rfl

theorem redactValue_object (path : String) (entries : List (String × JsonValue)) :
    redactValue redactText path (.object entries) =
      (.object (entries.map fun e => (e.1, (redactEntry redactText path e.1 e.2).1)),
        entries.flatMap fun e => (redactEntry redactText path e.1 e.2).2) := by
  rw [redactValue, redactEntries_eq]

theorem redactValue_array (path : String) (items : List JsonValue) :
    redactValue redactText path (.array items) =
      (.array (items.mapIdx fun i item => (redactValue redactText (itemPath path i) item).1),
        (items.mapIdx fun i item => (redactValue redactText (itemPath path i) item).2).flatten) := by
  simp only [redactValue, redactItems_eq, Nat.zero_add]

end Walk

/-- `Stored path v field key w`: in `v`, which stands at `path`, an object has `w` under `key`, at `field`. -/
inductive Stored : String → JsonValue → String → String → JsonValue → Prop
  | entry {path key : String} {value : JsonValue} {entries : List (String × JsonValue)}
      (h : (key, value) ∈ entries) : Stored path (.object entries) (fieldPath path key) key value
  | inEntry {path name field key : String} {value w : JsonValue} {entries : List (String × JsonValue)}
      (h : (name, value) ∈ entries) (hin : Stored (fieldPath path name) value field key w) :
      Stored path (.object entries) field key w
  | inItem {path field key : String} {item w : JsonValue} {items : List JsonValue} {index : ℕ}
      (h : items[index]? = some item) (hin : Stored (itemPath path index) item field key w) :
      Stored path (.array items) field key w

def SensitiveTexts (path : String) (v : JsonValue) : Prop :=
  ∀ field key w, Stored path v field key w → isSensitiveField key = true → w.isString = true

/-- Every value under a sensitive key is gone, and its path is among the reported ones. -/
def Hidden (path : String) (redacted : JsonValue × List String) : Prop :=
  ∀ field key w, Stored path redacted.1 field key w → isSensitiveField key = true →
    w = .string "[REDACTED]" ∧ field ∈ redacted.2

theorem SensitiveTexts.entry {path key : String} {value : JsonValue} {entries : List (String × JsonValue)}
    (h : SensitiveTexts path (.object entries)) (hmem : (key, value) ∈ entries) :
    SensitiveTexts (fieldPath path key) value :=
  fun field name w hin => h field name w (.inEntry hmem hin)

theorem SensitiveTexts.item {path : String} {index : ℕ} {item : JsonValue} {items : List JsonValue}
    (h : SensitiveTexts path (.array items)) (hget : items[index]? = some item) :
    SensitiveTexts (itemPath path index) item :=
  fun field name w hin => h field name w (.inItem hget hin)

theorem Stored.isString {path field key : String} {v w : JsonValue} (h : Stored path v field key w) :
    v.isString = false := by
  cases h <;> rfl

theorem SensitiveTexts.tail {path : String} {e : String × JsonValue} {entries : List (String × JsonValue)}
    (h : SensitiveTexts path (.object (e :: entries))) : SensitiveTexts path (.object entries) := by
  intro field key w hstored
  cases hstored with
  | entry hmem => exact h _ _ _ (.entry (List.mem_cons_of_mem e hmem))
  | inEntry hmem hin => exact h _ _ _ (.inEntry (List.mem_cons_of_mem e hmem) hin)

section Completeness

variable {redactText : String → String}

theorem redactEntry_text {path key : String} {value : JsonValue} (hkey : isSensitiveField key = true)
    (hvalue : value.isString = true) :
    redactEntry redactText path key value = (.string "[REDACTED]", [fieldPath path key]) := by
  rw [redactEntry, if_pos (by rw [hkey, hvalue]; rfl)]

theorem redactEntry_of_open {path key : String} {value : JsonValue}
    (h : isSensitiveField key = false ∨ value.isString = false) :
    redactEntry redactText path key value = redactValue redactText (fieldPath path key) value := by
  rw [redactEntry, if_neg]
  rcases h with h | h <;> simp [h]

theorem isString_redactValue (path : String) (v : JsonValue) :
    (redactValue redactText path v).1.isString = v.isString := by
  cases v <;> simp [redactValue, JsonValue.isString]

theorem Stored.redacted {path field key : String} {v w : JsonValue} (h : Stored path v field key w)
    (hw : w.isString = false) :
    Stored path (redactValue redactText path v).1 field key (redactValue redactText field w).1 := by
  induction h with
  | entry hmem =>
    rw [redactValue_object, ← redactEntry_of_open (Or.inr hw)]
    exact .entry (List.mem_map_of_mem hmem)
  | inEntry hmem hin ih =>
    have hvalue := ih hw
    rw [← redactEntry_of_open (Or.inr hin.isString)] at hvalue
    rw [redactValue_object]
    exact .inEntry (List.mem_map_of_mem hmem) hvalue
  | inItem hget hin ih =>
    rw [redactValue_array]
    exact .inItem (by rw [List.getElem?_mapIdx, hget]; rfl) (ih hw)

theorem redactEntry_of_stored {path key fields field name : String} {value w : JsonValue}
    (h : Stored fields (redactEntry redactText path key value).1 field name w) :
    redactEntry redactText path key value = redactValue redactText (fieldPath path key) value := by
  by_cases hhidden : isSensitiveField key = true ∧ value.isString = true
  · rw [redactEntry_text hhidden.1 hhidden.2] at h
    exact absurd h.isString (by simp [JsonValue.isString])
  · exact redactEntry_of_open (by simpa [Classical.or_iff_not_imp_left] using hhidden)

theorem hidden_of_sensitiveTexts {path : String} {v : JsonValue} (h : SensitiveTexts path v) :
    Hidden path (redactValue redactText path v) := by
  intro field key w hstored hkey
  generalize hr : (redactValue redactText path v).1 = r at hstored
  induction hstored generalizing v with
  | entry hmem =>
    cases v with
    | object source =>
      rw [redactValue_object] at hr ⊢
      obtain rfl := JsonValue.object.inj hr
      obtain ⟨⟨name, original⟩, hsource, heq⟩ := List.mem_map.mp hmem
      obtain ⟨rfl, rfl⟩ := Prod.mk.inj heq
      have htext := h _ _ _ (.entry hsource) hkey
      refine ⟨by rw [redactEntry_text hkey htext], List.mem_flatMap.mpr ⟨_, hsource, ?_⟩⟩
      rw [redactEntry_text hkey htext]
      exact List.mem_singleton_self _
    | _ => simp [redactValue] at hr
  | inEntry hmem hin ih =>
    cases v with
    | object source =>
      rw [redactValue_object] at hr ⊢
      obtain rfl := JsonValue.object.inj hr
      obtain ⟨⟨name, original⟩, hsource, heq⟩ := List.mem_map.mp hmem
      obtain ⟨rfl, rfl⟩ := Prod.mk.inj heq
      have hopen := redactEntry_of_stored hin
      obtain ⟨hw, hreported⟩ := ih (h.entry hsource) hkey (congrArg Prod.fst hopen).symm
      exact ⟨hw, List.mem_flatMap.mpr ⟨_, hsource, by rwa [hopen]⟩⟩
    | _ => simp [redactValue] at hr
  | inItem hget hin ih =>
    cases v with
    | array source =>
      rw [redactValue_array] at hr ⊢
      obtain rfl := JsonValue.array.inj hr
      rw [List.getElem?_mapIdx] at hget
      obtain ⟨original, hsource, rfl⟩ := Option.map_eq_some_iff.mp hget
      obtain ⟨hw, hreported⟩ := ih (h.item hsource) hkey rfl
      refine ⟨hw, List.mem_flatten.mpr ⟨_, ?_, hreported⟩⟩
      apply List.mem_iff_getElem?.mpr
      exact ⟨_, by rw [List.getElem?_mapIdx, hsource]; rfl⟩
    | _ => simp [redactValue] at hr

theorem sensitiveTexts_of_hidden {path : String} {v : JsonValue}
    (h : Hidden path (redactValue redactText path v)) : SensitiveTexts path v := by
  intro field key w hstored hkey
  by_contra hopen
  rw [Bool.not_eq_true] at hopen
  have hkept := (h field key _ (hstored.redacted hopen) hkey).1
  have hstill := @isString_redactValue redactText field w
  rw [hkept, hopen] at hstill
  cases hstill

end Completeness

/-! Values that agree, but for what stands under sensitive keys and for their texts. -/

mutual

def agree (texts : String → String → Prop) : JsonValue → JsonValue → Prop
  | .null, .null => True
  | .bool b, .bool c => b = c
  | .number m, .number n => m = n
  | .string s, .string t => texts s t
  | .array items, .array others => agreeItems texts items others
  | .object entries, .object others => agreeEntries texts entries others
  | _, _ => False

def agreeItems (texts : String → String → Prop) : List JsonValue → List JsonValue → Prop
  | [], [] => True
  | item :: items, other :: others => agree texts item other ∧ agreeItems texts items others
  | _, _ => False

def agreeEntries (texts : String → String → Prop) :
    List (String × JsonValue) → List (String × JsonValue) → Prop
  | [], [] => True
  | (key, value) :: entries, (key', value') :: others =>
    (key = key' ∧ (isSensitiveField key = true ∨ agree texts value value')) ∧ agreeEntries texts entries others
  | _, _ => False

end

section Agreement

variable (redactText : String → String)

-- the path does not matter for what becomes of a value
mutual

theorem agree_redactValue (path : String) : ∀ v : JsonValue,
    agree (fun _ _ => True) v (redactValue redactText path v).1
  | .null => by simp [redactValue, agree]
  | .bool _ => by simp [redactValue, agree]
  | .number _ => by simp [redactValue, agree]
  | .string _ => by simp [redactValue, agree]
  | .array items => by
    simp only [redactValue, agree]
    exact agreeItems_redactItems path 0 items
  | .object entries => by
    simp only [redactValue, agree]
    exact agreeEntries_redactEntries path entries

theorem agreeItems_redactItems (path : String) (index : ℕ) : ∀ items : List JsonValue,
    agreeItems (fun _ _ => True) items (redactItems redactText path index items).1
  | [] => trivial
  | item :: items => by
    simp only [redactItems, agreeItems]
    exact ⟨agree_redactValue _ item, agreeItems_redactItems path (index + 1) items⟩

theorem agreeEntries_redactEntries (path : String) : ∀ entries : List (String × JsonValue),
    agreeEntries (fun _ _ => True) entries (redactEntries redactText path entries).1
  | [] => trivial
  | (key, value) :: entries => by
    simp only [redactEntries, agreeEntries]
    refine ⟨⟨trivial, ?_⟩, agreeEntries_redactEntries path entries⟩
    by_cases hkey : isSensitiveField key = true
    · exact Or.inl hkey
    · rw [if_neg (by simp [hkey])]
      exact Or.inr (agree_redactValue _ value)

end

mutual

theorem redactValue_congr (path : String) : ∀ v w : JsonValue, agree (· = ·) v w →
    SensitiveTexts path v → SensitiveTexts path w →
    redactValue redactText path v = redactValue redactText path w
  | .null, w, h, _, _ => by cases w <;> simp_all [agree]
  | .bool _, w, h, _, _ => by cases w <;> simp_all [agree]
  | .number _, w, h, _, _ => by cases w <;> simp_all [agree]
  | .string _, w, h, _, _ => by cases w <;> simp_all [agree]
  | .array items, w, h, hv, hw => by
    cases w with
    | array others =>
      rw [agree] at h
      have hsame := redactItems_congr path 0 items others h
        (fun i item hget => by rw [Nat.zero_add]; exact hv.item hget)
        (fun i item hget => by rw [Nat.zero_add]; exact hw.item hget)
      simp only [redactValue, hsame]
    | _ => simp [agree] at h
  | .object entries, w, h, hv, hw => by
    cases w with
    | object others =>
      rw [agree] at h
      simp only [redactValue, redactEntries_congr path entries others h hv hw]
    | _ => simp [agree] at h

theorem redactItems_congr (path : String) (index : ℕ) : ∀ items others : List JsonValue,
    agreeItems (· = ·) items others →
    (∀ (i : ℕ) item, items[i]? = some item → SensitiveTexts (itemPath path (index + i)) item) →
    (∀ (i : ℕ) item, others[i]? = some item → SensitiveTexts (itemPath path (index + i)) item) →
    redactItems redactText path index items = redactItems redactText path index others
  | [], others, h, _, _ => by cases others <;> simp_all [agreeItems]
  | item :: items, others, h, hitems, hothers => by
    cases others with
    | nil => simp [agreeItems] at h
    | cons other others =>
      rw [agreeItems] at h
      have hhead := redactValue_congr (itemPath path index) item other h.1 (hitems 0 item rfl)
        (hothers 0 other rfl)
      have htail := redactItems_congr path (index + 1) items others h.2
        (fun i found hget => by rw [Nat.add_assoc, Nat.add_comm 1]; exact hitems (i + 1) found hget)
        (fun i found hget => by rw [Nat.add_assoc, Nat.add_comm 1]; exact hothers (i + 1) found hget)
      rw [itemPath] at hhead
      simp only [redactItems, hhead, htail]

theorem redactEntries_congr (path : String) : ∀ entries others : List (String × JsonValue),
    agreeEntries (· = ·) entries others → SensitiveTexts path (.object entries) →
    SensitiveTexts path (.object others) →
    redactEntries redactText path entries = redactEntries redactText path others
  | [], others, h, _, _ => by cases others <;> simp_all [agreeEntries]
  | (key, value) :: entries, others, h, hentries, hothers => by
    cases others with
    | nil => simp [agreeEntries] at h
    | cons other others =>
      obtain ⟨key', value'⟩ := other
      rw [agreeEntries] at h
      obtain ⟨⟨rfl, hvalue⟩, hrest⟩ := h
      have htail := redactEntries_congr path entries others hrest hentries.tail hothers.tail
      by_cases hkey : isSensitiveField key = true
      · have htext := hentries _ _ _ (.entry List.mem_cons_self) hkey
        have htext' := hothers _ _ _ (.entry List.mem_cons_self) hkey
        simp only [redactEntries, hkey, htext, htext', Bool.and_self, if_true, htail]
      · have hhead := redactValue_congr (fieldPath path key) value value' (hvalue.resolve_left hkey)
          (hentries.entry List.mem_cons_self) (hothers.entry List.mem_cons_self)
        rw [fieldPath] at hhead
        simp only [redactEntries, hkey, Bool.false_and, hhead, htail]

end

end Agreement

def numericToken : JsonValue := .object [("token", .number "12345")]

theorem redaction_complete_iff (redactText : String → String) (v : JsonValue) :
    agree (fun _ _ => True) v (redactJsonValue redactText v).1 ∧
      ((Hidden "" (redactJsonValue redactText v) ∧
          ∀ w, SensitiveTexts "" w → agree (· = ·) v w →
            redactJsonValue redactText v = redactJsonValue redactText w) ↔
        SensitiveTexts "" v) := by
  refine ⟨agree_redactValue redactText "" v, fun h => sensitiveTexts_of_hidden h.1, fun h => ⟨?_, ?_⟩⟩
  · exact hidden_of_sensitiveTexts h
  · intro w hw hagree
    exact redactValue_congr redactText "" v w hagree h hw

theorem numeric_token_kept :
    (∀ redactText : String → String, redactJsonValue redactText numericToken = (numericToken, [])) ∧
      ¬ ∀ (redactText : String → String) (v : JsonValue), Hidden "" (redactJsonValue redactText v) := by
  have hkept : ∀ redactText : String → String,
      redactJsonValue redactText numericToken = (numericToken, []) := by
    intro redactText
    simp [redactJsonValue, numericToken, redactValue, redactEntries, JsonValue.isString]
  refine ⟨hkept, fun hall => ?_⟩
  have hhidden := hall id numericToken
  rw [hkept id] at hhidden
  have hgone := (hhidden _ _ _ (.entry List.mem_cons_self) (by decide +kernel)).1
  cases hgone

end CrashLab.Redact
