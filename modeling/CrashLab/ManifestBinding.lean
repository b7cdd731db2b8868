import CrashLab.CorpusArchive

namespace CrashLab.Archive

open Delimited Digest

open SignatureHash (asBytes)

def entryFields (entry : ArchiveEntry) : List (String × String) :=
  ("entry_hash", entry.contentHash) :: ("entry_id", toString entry.id) ::
    ("entry_len", toString entry.payloadLen) :: entry.tags.map (("entry_tag", ·))

namespace ArchiveManifest

def fields (m : ArchiveManifest) : List (String × String) :=
  ("schema", toString m.schema) :: ("engine_version", m.engineVersion) ::
    ("seed_count", toString m.seedCount) ::
      (m.entries.flatMap entryFields ++
        (m.provenanceTags.map (("prov_tag", ·)) ++ [("coverage", m.coverageNotes.getD "")]))

def covered (m : ArchiveManifest) : ArchiveManifest := { m with manifestHash := "" }

def separators (text : String) : ℕ := (asBytes text).count fieldSep

def layout (m : ArchiveManifest) : ℕ × List (List ℕ) × List ℕ × Option ℕ :=
  (separators m.engineVersion, m.entries.map (·.tags.map separators), m.provenanceTags.map separators,
    m.coverageNotes.map separators)

structure Plain (m : ArchiveManifest) : Prop where
  engineVersion : fieldSep ∉ asBytes m.engineVersion
  entryTags : ∀ entry ∈ m.entries, ∀ tag ∈ entry.tags, fieldSep ∉ asBytes tag
  provenanceTags : ∀ tag ∈ m.provenanceTags, fieldSep ∉ asBytes tag
  coverageNotes : ∀ notes ∈ m.coverageNotes, fieldSep ∉ asBytes notes ∧ notes ≠ ""

end ArchiveManifest

open ArchiveManifest

theorem pushEntry_eq (out : List UInt8) (entry : ArchiveEntry) :
    pushEntry out entry = out ++ encodeFields (entryFields entry) := by
  simp only [pushEntry, foldl_pushField]
  simp only [entryFields, pushField_eq, encodeFields_cons, encodeFields_nil, List.append_assoc,
    List.cons_append, List.nil_append]

theorem foldl_pushEntry (out : List UInt8) (entries : List ArchiveEntry) :
    entries.foldl pushEntry out = out ++ encodeFields (entries.flatMap entryFields) := by
  induction entries generalizing out with
  | nil => simp
  | cons entry entries ih =>
    rw [List.foldl_cons, ih, pushEntry_eq, List.flatMap_cons, encodeFields_append, List.append_assoc]

theorem manifestCanonicalEncoding_eq (m : ArchiveManifest) :
    manifestCanonicalEncoding m = encodeFields m.fields := by
  simp only [manifestCanonicalEncoding, foldl_pushEntry, foldl_pushField]
  simp only [fields, pushField_eq, encodeFields_cons, encodeFields_nil, encodeFields_append,
    List.append_assoc, List.cons_append, List.nil_append]

theorem value_unique {key v w : String} {rest rest' : List (String × String)}
    (h : encodeFields ((key, v) :: rest) = encodeFields ((key, w) :: rest'))
    (hcount : separators v = separators w) : v = w ∧ encodeFields rest = encodeFields rest' := by
  rw [encodeFields_cons, encodeFields_cons] at h
  have hlines : (fieldLine (key, v)).count fieldSep = (fieldLine (key, w)).count fieldSep := by
    simp only [fieldLine, List.count_append, List.count_cons]
    simp only [separators] at hcount
    rw [hcount]
  obtain ⟨hline, hrest⟩ := cut_unique h hlines
  have hvalue := (List.cons.inj (List.append_cancel_left hline)).2
  exact ⟨asBytes_injective hvalue, hrest⟩

theorem values_unique {key : String} {vs ws : List String} {rest rest' : List (String × String)}
    (h : encodeFields (vs.map ((key, ·)) ++ rest) = encodeFields (ws.map ((key, ·)) ++ rest'))
    (hcount : vs.map separators = ws.map separators) : vs = ws ∧ encodeFields rest = encodeFields rest' := by
  induction vs generalizing ws with
  | nil =>
    rw [List.map_nil, eq_comm, List.map_eq_nil_iff] at hcount
    subst hcount
    exact ⟨rfl, h⟩
  | cons v vs ih =>
    cases ws with
    | nil => simp at hcount
    | cons w ws =>
      obtain ⟨hhead, htail⟩ := List.cons.inj hcount
      obtain ⟨hvalue, hvalues⟩ := value_unique h hhead
      obtain ⟨hmore, hrest⟩ := ih hvalues htail
      exact ⟨by rw [hvalue, hmore], hrest⟩

theorem separators_toString (n : ℕ) : separators (toString n) = 0 :=
  List.count_eq_zero_of_not_mem (fieldSep_not_mem_toString n)

theorem entries_unique {es es' : List ArchiveEntry} {rest rest' : List (String × String)}
    (hhash : ∀ e ∈ es, separators e.contentHash = 0) (hhash' : ∀ e ∈ es', separators e.contentHash = 0)
    (h : encodeFields (es.flatMap entryFields ++ rest) = encodeFields (es'.flatMap entryFields ++ rest'))
    (hcount : es.map (·.tags.map separators) = es'.map (·.tags.map separators)) :
    es = es' ∧ encodeFields rest = encodeFields rest' := by
  induction es generalizing es' with
  | nil =>
    rw [List.map_nil, eq_comm, List.map_eq_nil_iff] at hcount
    subst hcount
    exact ⟨rfl, h⟩
  | cons e es ih =>
    cases es' with
    | nil => simp at hcount
    | cons e' es' =>
      rw [List.forall_mem_cons] at hhash hhash'
      obtain ⟨htags, hrest⟩ := List.cons.inj hcount
      simp only [List.flatMap_cons, entryFields, List.cons_append, List.append_assoc] at h
      obtain ⟨hcontent, h⟩ := value_unique h (hhash.1.trans hhash'.1.symm)
      obtain ⟨hid, h⟩ := value_unique h (by simp only [separators_toString])
      obtain ⟨hlen, h⟩ := value_unique h (by simp only [separators_toString])
      obtain ⟨hvalues, h⟩ := values_unique h htags
      obtain ⟨hmore, h⟩ := ih hhash.2 hhash'.2 h hrest
      have hentry : e = e' := by
        cases e
        cases e'
        simp only [ArchiveEntry.mk.injEq]
        exact ⟨hcontent, toString_injective hid, toString_injective hlen, hvalues⟩
      exact ⟨by rw [hentry, hmore], h⟩

theorem covered_eq_of_layout {m m' : ArchiveManifest}
    (hhash : ∀ e ∈ m.entries, separators e.contentHash = 0)
    (hhash' : ∀ e ∈ m'.entries, separators e.contentHash = 0)
    (h : encodeFields m.fields = encodeFields m'.fields) (hlayout : m.layout = m'.layout) :
    m.covered = m'.covered := by
  simp only [layout, Prod.mk.injEq] at hlayout
  obtain ⟨hengine, hentries, hprov, hnotes⟩ := hlayout
  obtain ⟨hschema, h⟩ := value_unique h (by simp only [separators_toString])
  obtain ⟨hversion, h⟩ := value_unique h hengine
  obtain ⟨hcount, h⟩ := value_unique h (by simp only [separators_toString])
  obtain ⟨hes, h⟩ := entries_unique hhash hhash' h hentries
  obtain ⟨htags, h⟩ := values_unique h hprov
  have hcoverage : m.coverageNotes = m'.coverageNotes := by
    cases hm : m.coverageNotes with
    | none =>
      rw [hm, Option.map_none, eq_comm, Option.map_eq_none_iff] at hnotes
      exact hnotes.symm
    | some notes =>
      cases hm' : m'.coverageNotes with
      | none => simp [hm, hm'] at hnotes
      | some notes' =>
        rw [hm, hm', Option.map_some, Option.map_some, Option.some_inj] at hnotes
        rw [hm, hm'] at h
        have hvalue : notes = notes' := (value_unique h hnotes).1
        rw [hvalue]
  cases m
  cases m'
  simp only [covered, ArchiveManifest.mk.injEq]
  exact ⟨toString_injective hschema, hversion, toString_injective hcount, hes, htags, hcoverage, trivial⟩

theorem fieldLine_injOn {field field' : String × String} (h : pairSep ∉ asBytes field.1)
    (h' : pairSep ∉ asBytes field'.1) (heq : fieldLine field = fieldLine field') : field = field' := by
  obtain ⟨hkey, hvalue⟩ := cut_unique_of_not_mem h h' heq
  exact Prod.ext (asBytes_injective hkey) (asBytes_injective hvalue)

def Readable (fields : List (String × String)) : Prop :=
  ∀ field ∈ fields, fieldSep ∉ asBytes field.1 ∧ pairSep ∉ asBytes field.1 ∧ fieldSep ∉ asBytes field.2

theorem encodeFields_injOn {fields fields' : List (String × String)} (h : Readable fields)
    (h' : Readable fields') (heq : encodeFields fields = encodeFields fields') : fields = fields' := by
  have hlines : ∀ {fields : List (String × String)}, Readable fields →
      ∀ line ∈ fields.map fieldLine, fieldSep ∉ line := by
    intro fields h line hline
    obtain ⟨field, hfield, rfl⟩ := List.mem_map.mp hline
    exact fieldSep_not_mem_fieldLine (h field hfield).1 (h field hfield).2.2
  have hmap := terminate_injective (hlines h) (hlines h') heq
  clear heq
  induction fields generalizing fields' with
  | nil => exact (List.map_eq_nil_iff.mp hmap.symm).symm
  | cons field fields ih =>
    cases fields' with
    | nil => simp at hmap
    | cons field' fields' =>
      obtain ⟨hline, hrest⟩ := List.cons.inj hmap
      have hfield := fieldLine_injOn (h field List.mem_cons_self).2.1 (h' field' List.mem_cons_self).2.1 hline
      have hfields := ih (fun f hf => h f (List.mem_cons_of_mem _ hf))
        (fun f hf => h' f (List.mem_cons_of_mem _ hf)) hrest
      rw [hfield, hfields]

theorem tagged_unique {key : String} {vs ws : List String} {rest rest' : List (String × String)}
    (hrest : ∀ field ∈ rest.head?, field.1 ≠ key) (hrest' : ∀ field ∈ rest'.head?, field.1 ≠ key)
    (h : vs.map ((key, ·)) ++ rest = ws.map ((key, ·)) ++ rest') : vs = ws ∧ rest = rest' := by
  induction vs generalizing ws with
  | nil =>
    cases ws with
    | nil => exact ⟨rfl, h⟩
    | cons w ws =>
      have hhead : rest.head? = some (key, w) := by
        rw [List.map_nil, List.nil_append] at h
        rw [h]
        rfl
      exact absurd rfl (hrest _ hhead)
  | cons v vs ih =>
    cases ws with
    | nil =>
      have hhead : rest'.head? = some (key, v) := by
        rw [List.map_nil, List.nil_append] at h
        rw [← h]
        rfl
      exact absurd rfl (hrest' _ hhead)
    | cons w ws =>
      obtain ⟨hfield, hmore⟩ := List.cons.inj h
      obtain ⟨hvs, hrests⟩ := ih hmore
      exact ⟨by rw [(Prod.mk.inj hfield).2, hvs], hrests⟩

def PastEntries (fields : List (String × String)) : Prop :=
  ∀ field ∈ fields.head?, field.1 ≠ "entry_hash" ∧ field.1 ≠ "entry_tag"

theorem entries_tail_head {es : List ArchiveEntry} {rest : List (String × String)} (h : PastEntries rest) :
    ∀ field ∈ (es.flatMap entryFields ++ rest).head?, field.1 ≠ "entry_tag" := by
  cases es with
  | nil => exact fun field hfield => (h field hfield).2
  | cons e es =>
    intro field hfield
    rw [List.flatMap_cons, entryFields, List.cons_append, List.cons_append, List.head?_cons,
      Option.mem_some_iff] at hfield
    rw [← hfield]
    change "entry_hash" ≠ "entry_tag"
    decide

theorem entryFields_unique {es es' : List ArchiveEntry} {rest rest' : List (String × String)}
    (hrest : PastEntries rest) (hrest' : PastEntries rest')
    (h : es.flatMap entryFields ++ rest = es'.flatMap entryFields ++ rest') : es = es' ∧ rest = rest' := by
  induction es generalizing es' with
  | nil =>
    cases es' with
    | nil => exact ⟨rfl, h⟩
    | cons e es' =>
      have hhead : rest.head? = some ("entry_hash", e.contentHash) := by
        rw [List.flatMap_nil, List.nil_append] at h
        rw [h]
        rfl
      exact absurd rfl (hrest _ hhead).1
  | cons e es ih =>
    cases es' with
    | nil =>
      have hhead : rest'.head? = some ("entry_hash", e.contentHash) := by
        rw [List.flatMap_nil, List.nil_append] at h
        rw [← h]
        rfl
      exact absurd rfl (hrest' _ hhead).1
    | cons e' es' =>
      simp only [List.flatMap_cons, entryFields, List.cons_append, List.append_assoc, List.cons.injEq,
        Prod.mk.injEq, true_and] at h
      obtain ⟨hcontent, hid, hlen, htags⟩ := h
      obtain ⟨hvalues, hmore⟩ := tagged_unique (entries_tail_head hrest) (entries_tail_head hrest') htags
      obtain ⟨hes, hrests⟩ := ih hmore
      have hentry : e = e' := by
        cases e
        cases e'
        simp only [ArchiveEntry.mk.injEq]
        exact ⟨hcontent, toString_injective hid, toString_injective hlen, hvalues⟩
      exact ⟨by rw [hentry, hes], hrests⟩

theorem pastEntries_tail (tags : List String) (notes : String) :
    PastEntries (tags.map (("prov_tag", ·)) ++ [("coverage", notes)]) := by
  cases tags with
  | nil =>
    rintro field ⟨⟩
    change "coverage" ≠ "entry_hash" ∧ "coverage" ≠ "entry_tag"
    decide
  | cons tag tags =>
    rintro field ⟨⟩
    change "prov_tag" ≠ "entry_hash" ∧ "prov_tag" ≠ "entry_tag"
    decide

theorem readable_fields {m : ArchiveManifest} (hhash : ∀ e ∈ m.entries, separators e.contentHash = 0)
    (h : m.Plain) : Readable m.fields := by
  have hnumber := fieldSep_not_mem_toString
  have hread : ∀ {key value : String}, fieldSep ∉ asBytes key → pairSep ∉ asBytes key →
      fieldSep ∉ asBytes value → fieldSep ∉ asBytes (key, value).1 ∧ pairSep ∉ asBytes (key, value).1 ∧
        fieldSep ∉ asBytes (key, value).2 := fun h₁ h₂ h₃ => ⟨h₁, h₂, h₃⟩
  have hnotes : fieldSep ∉ asBytes (m.coverageNotes.getD "") := by
    cases hm : m.coverageNotes with
    | none => exact List.not_mem_nil
    | some notes => exact (h.coverageNotes notes hm).1
  intro field hfield
  simp only [fields, List.mem_cons, List.mem_append, List.mem_flatMap, entryFields, List.mem_map,
    List.not_mem_nil, or_false] at hfield
  rcases hfield with rfl | rfl | rfl | ⟨e, he, rfl | rfl | rfl | ⟨tag, htag, rfl⟩⟩ | ⟨tag, htag, rfl⟩ | rfl
  · exact hread (by decide) (by decide) (hnumber _)
  · exact hread (by decide) (by decide) h.engineVersion
  · exact hread (by decide) (by decide) (hnumber _)
  · exact hread (by decide) (by decide) (List.count_eq_zero.mp (hhash e he))
  · exact hread (by decide) (by decide) (hnumber _)
  · exact hread (by decide) (by decide) (hnumber _)
  · exact hread (by decide) (by decide) (h.entryTags e he tag htag)
  · exact hread (by decide) (by decide) (h.provenanceTags tag htag)
  · exact hread (by decide) (by decide) hnotes

theorem covered_eq_of_plain {m m' : ArchiveManifest}
    (hhash : ∀ e ∈ m.entries, separators e.contentHash = 0)
    (hhash' : ∀ e ∈ m'.entries, separators e.contentHash = 0)
    (h : encodeFields m.fields = encodeFields m'.fields) (hplain : m.Plain) (hplain' : m'.Plain) :
    m.covered = m'.covered := by
  have hfields := encodeFields_injOn (readable_fields hhash hplain) (readable_fields hhash' hplain') h
  simp only [fields, List.cons.injEq, Prod.mk.injEq, true_and] at hfields
  obtain ⟨hschema, hversion, hcount, hfields⟩ := hfields
  obtain ⟨hes, hfields⟩ := entryFields_unique (pastEntries_tail _ _) (pastEntries_tail _ _) hfields
  have hlast : ∀ notes : String, ∀ field ∈ [("coverage", notes)].head?, field.1 ≠ "prov_tag" := by
    rintro notes field ⟨⟩
    change "coverage" ≠ "prov_tag"
    decide
  obtain ⟨htags, hfields⟩ := tagged_unique (hlast _) (hlast _) hfields
  have hnotes : m.coverageNotes.getD "" = m'.coverageNotes.getD "" := by simpa using hfields
  have hcoverage : m.coverageNotes = m'.coverageNotes := by
    cases hm : m.coverageNotes with
    | none =>
      cases hm' : m'.coverageNotes with
      | none => rfl
      | some notes' =>
        rw [hm, hm'] at hnotes
        exact absurd hnotes.symm (hplain'.coverageNotes notes' hm').2
    | some notes =>
      cases hm' : m'.coverageNotes with
      | none =>
        rw [hm, hm'] at hnotes
        exact absurd hnotes (hplain.coverageNotes notes hm).2
      | some notes' =>
        rw [hm, hm'] at hnotes
        exact congrArg some hnotes
  cases m
  cases m'
  simp only [covered, ArchiveManifest.mk.injEq]
  exact ⟨toString_injective hschema, hversion, toString_injective hcount, hes, htags, hcoverage, trivial⟩

theorem contentHash_plain {sha256 : List UInt8 → List UInt8} {archive : CorpusArchive}
    (h : CorpusArchive.Verified sha256 archive) :
    ∀ e ∈ archive.manifest.entries, separators e.contentHash = 0 := by
  intro e he
  have hzip : (archive.manifest.entries.zip archive.seeds).map Prod.fst = archive.manifest.entries :=
    List.map_fst_zip h.entryCount.le
  rw [← hzip, List.mem_map] at he
  obtain ⟨p, hp, rfl⟩ := he
  rw [(h.entries p hp).contentHash]
  exact List.count_eq_zero_of_not_mem (fieldSep_not_mem_sha256Hex _ _)

theorem manifestHash_binds_iff (sha256 : List UInt8 → List UInt8) (hsha : Function.Injective sha256)
    (parse : List UInt8 → Except String CorpusArchive) (bytes bytes' : List UInt8) (a b : CorpusArchive)
    (ha : CorpusArchive.fromJson sha256 parse bytes = .ok a)
    (hb : CorpusArchive.fromJson sha256 parse bytes' = .ok b)
    (h : a.manifest.manifestHash = b.manifest.manifestHash) :
    (a.manifest.covered = b.manifest.covered ↔ a.manifest.layout = b.manifest.layout) ∧
      (a.manifest.Plain → b.manifest.Plain → a.manifest.covered = b.manifest.covered) := by
  have hva := (CorpusArchive.fromJson_ok_iff.mp ha).2
  have hvb := (CorpusArchive.fromJson_ok_iff.mp hb).2
  have hencoding : encodeFields a.manifest.fields = encodeFields b.manifest.fields := by
    rw [hva.manifestHash, hvb.manifestHash] at h
    have hbytes := sha256Hex_injective hsha h
    rwa [manifestCanonicalEncoding_eq, manifestCanonicalEncoding_eq] at hbytes
  constructor
  · constructor
    · intro hcovered
      change a.manifest.covered.layout = b.manifest.covered.layout
      rw [hcovered]
    · exact covered_eq_of_layout (contentHash_plain hva) (contentHash_plain hvb) hencoding
  · exact covered_eq_of_plain (contentHash_plain hva) (contentHash_plain hvb) hencoding

def emptyDigests : List (List UInt8 × List UInt8) :=
  [(asBytes "schema\x1f1\x1eengine_version\x1f0.1.0\x1eseed_count\x1f0\x1ecoverage\x1f\x1e",
    [184, 52, 89, 230, 26, 114, 129, 142, 165, 220, 156, 134, 236, 51, 35, 217, 251, 25,
      136, 57, 16, 164, 101, 69, 143, 93, 247, 55, 95, 130, 114, 105])]

def emptyArchive (coverageNotes : Option String) : CorpusArchive :=
  CorpusArchive.buildTagged (tabulated emptyDigests) [] [] coverageNotes

def withoutNotesJson : String :=
  "\x7b\"manifest\":\x7b\"schema\":1,\"engine_version\":\"0.1.0\",\"seed_count\":0,\"entries\":[]," ++
    "\"provenance_tags\":[],\"manifest_hash\":" ++
    "\"b83459e61a72818ea5dc9c86ec3323d9fb19883910a465458f5df7375f827269\"\x7d,\"seeds\":[]\x7d"

def emptyNotesJson : String :=
  "\x7b\"manifest\":\x7b\"schema\":1,\"engine_version\":\"0.1.0\",\"seed_count\":0,\"entries\":[]," ++
    "\"provenance_tags\":[],\"coverage_notes\":\"\",\"manifest_hash\":" ++
    "\"b83459e61a72818ea5dc9c86ec3323d9fb19883910a465458f5df7375f827269\"\x7d,\"seeds\":[]\x7d"

def parseEmpty (bytes : List UInt8) : Except String CorpusArchive :=
  if bytes = asBytes withoutNotesJson then .ok (emptyArchive none)
  else if bytes = asBytes emptyNotesJson then .ok (emptyArchive (some ""))
  else .error "expected value at line 1 column 1"

theorem parse_withoutNotes : CorpusArchive.fromJson (tabulated emptyDigests) parseEmpty
    (asBytes withoutNotesJson) = .ok (emptyArchive none) := by
  apply CorpusArchive.fromJson_ok_iff.mpr
  exact ⟨if_pos rfl, CorpusArchive.buildTagged_verified _ _ _⟩

theorem parse_emptyNotes : CorpusArchive.fromJson (tabulated emptyDigests) parseEmpty
    (asBytes emptyNotesJson) = .ok (emptyArchive (some "")) := by
  have hne : asBytes emptyNotesJson ≠ asBytes withoutNotesJson := by decide +kernel
  apply CorpusArchive.fromJson_ok_iff.mpr
  exact ⟨(if_neg hne).trans (if_pos rfl), CorpusArchive.buildTagged_verified _ _ _⟩

theorem emptyDigests_injective : Function.Injective (tabulated emptyDigests) :=
  tabulated_injective (by decide) (by decide)

theorem manifestHash_binds_iff_empty :
    (emptyArchive none).manifest.covered = (emptyArchive (some "")).manifest.covered ↔
      (emptyArchive none).manifest.layout = (emptyArchive (some "")).manifest.layout :=
  (manifestHash_binds_iff _ emptyDigests_injective parseEmpty _ _ _ _ parse_withoutNotes parse_emptyNotes
    rfl).1

theorem manifestHash_misses_empty_notes :
    ¬∀ (sha256 : List UInt8 → List UInt8) (parse : List UInt8 → Except String CorpusArchive)
        (bytes bytes' : List UInt8) (a b : CorpusArchive), Function.Injective sha256 →
      CorpusArchive.fromJson sha256 parse bytes = .ok a → CorpusArchive.fromJson sha256 parse bytes' = .ok b →
      a.manifest.manifestHash = b.manifest.manifestHash → a.manifest.covered = b.manifest.covered := by
  intro h
  have hcovered := h _ parseEmpty _ _ _ _ emptyDigests_injective parse_withoutNotes parse_emptyNotes rfl
  exact nomatch congrArg ArchiveManifest.coverageNotes hcovered

end CrashLab.Archive
