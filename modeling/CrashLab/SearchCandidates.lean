import CrashLab.SearchHistory

namespace CrashLab.SearchIndex

open BucketMaps Histories JsStrings KeyedLists Occurrences

section Matching

variable {index : RunSearchIndex} {R : JsString → JsString → Prop}

def Literal (term token : JsString) : Prop :=
  token = term ∨ prefixKey token = prefixKey term ∧ token ≠ term ∧ term <+: token ∨
    2 ≤ term.length ∧ ¬(token.length < term.length ∨ token = term ∨ term <+: token) ∧ term <:+: token

theorem mem_literalTokens (h : Indexes index R) (term token : JsString) :
    token ∈ literalTokens index term ↔ (∃ id, R token id) ∧ Literal term token := by
  have hexact : token ∈ (if (index.postings term).isSome then [term] else []) ↔
      (∃ id, R token id) ∧ token = term := by
    split_ifs with hterm <;> rw [h.postings.isSome_iff] at hterm
    · rw [List.mem_singleton]
      exact ⟨fun heq => ⟨heq ▸ hterm, heq⟩, fun heq => heq.2⟩
    · refine ⟨fun hmem => absurd hmem List.not_mem_nil, ?_⟩
      rintro ⟨hthere, rfl⟩
      exact absurd hthere hterm
  unfold literalTokens Literal
  by_cases hlength : 2 ≤ term.length
  · simp only [hlength, if_true, mem_addAllNew, hexact, List.mem_filter, decide_eq_true_eq, h.prefixBuckets.mem,
      h.mem_allTokens]
    by_cases hthere : ∃ id, R token id
    · simp only [hthere, true_and, and_true, or_assoc]
    · simp only [hthere, false_and, and_false, or_false]
  · simp only [hlength, if_false, mem_addAllNew, hexact, List.mem_filter, decide_eq_true_eq, h.prefixBuckets.mem,
      false_and, or_false]
    by_cases hthere : ∃ id, R token id
    · simp only [hthere, true_and, and_true]
    · simp only [hthere, false_and, and_false, or_false]

theorem mem_fuzzyTokens (term : JsString) (distance : ℚ) (found tokens : List JsString) (token : JsString) :
    token ∈ fuzzyTokens term distance found tokens ↔
      token ∈ found ∨ token ∈ tokens ∧ boundedEditDistance term token distance ≤ distance := by
  unfold fuzzyTokens
  induction tokens generalizing found with
  | nil => simp
  | cons next tokens ih =>
    rw [List.foldl_cons, ih, List.mem_cons]
    split_ifs with hfound hnear
    · constructor
      · rintro (hmem | hmem)
        · exact Or.inl hmem
        · exact Or.inr ⟨Or.inr hmem.1, hmem.2⟩
      · rintro (hmem | ⟨rfl | hmem, hdist⟩)
        · exact Or.inl hmem
        · exact Or.inl hfound
        · exact Or.inr ⟨hmem, hdist⟩
    · rw [mem_addNew]
      constructor
      · rintro ((hmem | rfl) | hmem)
        · exact Or.inl hmem
        · exact Or.inr ⟨Or.inl rfl, hnear⟩
        · exact Or.inr ⟨Or.inr hmem.1, hmem.2⟩
      · rintro (hmem | ⟨rfl | hmem, hdist⟩)
        · exact Or.inl (Or.inl hmem)
        · exact Or.inl (Or.inr rfl)
        · exact Or.inr ⟨hmem, hdist⟩
    · constructor
      · rintro (hmem | hmem)
        · exact Or.inl hmem
        · exact Or.inr ⟨Or.inr hmem.1, hmem.2⟩
      · rintro (hmem | ⟨rfl | hmem, hdist⟩)
        · exact Or.inl hmem
        · exact absurd hdist hnear
        · exact Or.inr ⟨hmem, hdist⟩

theorem mem_fuzzyLengths (h : Indexes index R) (term : JsString) (distance : ℚ) (lengths : List ℚ)
    (found : List JsString) (token : JsString) :
    token ∈ lengths.foldl (fuzzyLength index term distance) found ↔
      token ∈ found ∨ (∃ id, R token id) ∧ (token.length : ℚ) ∈ lengths ∧
        boundedEditDistance term token distance ≤ distance := by
  induction lengths generalizing found with
  | nil => simp
  | cons length lengths ih =>
    have hlist : token ∈ (index.tokensByLength length).getD [] ↔ (token.length : ℚ) = length ∧ ∃ id, R token id :=
      h.tokensByLength.mem length token
    rw [List.foldl_cons, ih, List.mem_cons, fuzzyLength]
    cases htokens : index.tokensByLength length with
    | none =>
      rw [htokens, Option.getD_none] at hlist
      have hnone : ¬((token.length : ℚ) = length ∧ ∃ id, R token id) := fun hboth =>
        absurd (hlist.mpr hboth) List.not_mem_nil
      tauto
    | some tokens =>
      rw [htokens, Option.getD_some] at hlist
      simp only [mem_fuzzyTokens, hlist]
      tauto

def Matching (there : JsString → Prop) (term : JsString) (maxEditDistance : Option ℚ) (token : JsString) : Prop :=
  there token ∧ (Literal term token ∨
    (∀ other, there other → ¬Literal term other) ∧ 0 < maxEditDistanceFor term maxEditDistance ∧
      (token.length : ℚ) ∈ lengthsWithin term (maxEditDistanceFor term maxEditDistance) ∧
      boundedEditDistance term token (maxEditDistanceFor term maxEditDistance) ≤
        maxEditDistanceFor term maxEditDistance)

theorem mem_matchingTokens (h : Indexes index R) (term : JsString) (maxEditDistance : Option ℚ) (token : JsString) :
    token ∈ matchingTokens index term maxEditDistance ↔
      Matching (fun t => ∃ id, R t id) term maxEditDistance token := by
  have hliteral := mem_literalTokens h term
  unfold matchingTokens Matching
  by_cases hfound : literalTokens index term = []
  · have hnone : ∀ other, (∃ id, R other id) → ¬Literal term other := by
      intro other hthere hlit
      have hmem := (hliteral other).mpr ⟨hthere, hlit⟩
      rw [hfound] at hmem
      exact List.not_mem_nil hmem
    simp only [hfound, ne_eq, not_true_eq_false, if_false]
    by_cases hdistance : maxEditDistanceFor term maxEditDistance ≤ 0
    · rw [if_pos hdistance]
      refine ⟨fun hmem => absurd hmem List.not_mem_nil, ?_⟩
      rintro ⟨hthere, hlit | hfuzzy⟩
      · exact absurd hlit (hnone token hthere)
      · exact absurd hfuzzy.2.1 (not_lt.mpr hdistance)
    · rw [if_neg hdistance, mem_fuzzyLengths h]
      have hnot : token ∉ ([] : List JsString) := List.not_mem_nil
      have hpos := not_le.mp hdistance
      have hopen := hnone token
      tauto
  · simp only [ne_eq, hfound, not_false_eq_true, if_true]
    rw [hliteral token]
    obtain ⟨other, hother⟩ := List.exists_mem_of_ne_nil _ hfound
    rw [hliteral other] at hother
    have hsome : ¬∀ other, (∃ id, R other id) → ¬Literal term other := fun hall => hall other hother.1 hother.2
    tauto

theorem mem_termIds (h : Indexes index R) (maxEditDistance : Option ℚ) (term id : JsString) :
    id ∈ termIds index maxEditDistance term ↔
      ∃ token, Matching (fun t => ∃ id, R t id) term maxEditDistance token ∧ R token id := by
  have hfold : ∀ tokens ids : List JsString,
      id ∈ tokens.foldl (addPosted index) ids ↔ id ∈ ids ∨ ∃ token ∈ tokens, R token id := by
    intro tokens
    induction tokens with
    | nil => simp
    | cons token tokens ih =>
      intro ids
      rw [List.foldl_cons, ih, List.exists_mem_cons_iff, ← h.postings.mem token id, addPosted]
      cases index.postings token with
      | none => simp
      | some posting => simp [or_assoc]
  rw [termIds, hfold]
  simp [mem_matchingTokens h]

theorem nodup_termIds (index : RunSearchIndex) (maxEditDistance : Option ℚ) (term : JsString) :
    (termIds index maxEditDistance term).Nodup := by
  have hfold : ∀ tokens ids : List JsString, ids.Nodup → (tokens.foldl (addPosted index) ids).Nodup := by
    intro tokens
    induction tokens with
    | nil => exact fun ids hids => hids
    | cons token tokens ih =>
      intro ids hids
      rw [List.foldl_cons]
      apply ih
      rw [addPosted]
      cases index.postings token with
      | none => exact hids
      | some posting => exact nodup_addAllNew hids posting
  exact hfold _ _ List.nodup_nil

end Matching

section Candidates

variable {unicode : Unicode} {index : RunSearchIndex}

theorem termCandidates_cases (index : RunSearchIndex) (maxEditDistance : Option ℚ) (terms : List JsString) :
    (termCandidates index maxEditDistance terms = none ∧ ∃ term ∈ terms, termIds index maxEditDistance term = []) ∨
      termCandidates index maxEditDistance terms = some (terms.map (termIds index maxEditDistance)) := by
  induction terms with
  | nil => exact Or.inr rfl
  | cons term terms ih =>
    simp only [termCandidates, List.length_eq_zero_iff]
    split_ifs with hids
    · exact Or.inl ⟨rfl, term, List.mem_cons_self, hids⟩
    · rcases ih with ⟨hnone, other, hother, hempty⟩ | hsome
      · rw [hnone]
        exact Or.inl ⟨rfl, other, List.mem_cons_of_mem term hother, hempty⟩
      · rw [hsome]
        exact Or.inr rfl

theorem mem_intersect (ids : List JsString) (others : List (List JsString)) (id : JsString) :
    id ∈ intersect ids others ↔ id ∈ ids ∧ ∀ other ∈ others, id ∈ other := by
  unfold intersect
  induction others generalizing ids with
  | nil => simp
  | cons other others ih =>
    rw [List.foldl_cons, ih, List.forall_mem_cons]
    split_ifs with hids
    · simp [and_assoc]
    · have hempty : ids = [] := by simpa using hids
      simp [hempty]

theorem nodup_intersect {ids : List JsString} (h : ids.Nodup) (others : List (List JsString)) :
    (intersect ids others).Nodup := by
  unfold intersect
  induction others generalizing ids with
  | nil => exact h
  | cons other others ih =>
    rw [List.foldl_cons]
    apply ih
    split_ifs
    · exact h.filter _
    · exact h

theorem getDocument_eq_some (h : Coherent unicode index) (id : JsString) (document : SearchDocument) :
    getDocument index id = some document ↔ document ∈ currentDocuments index ∧ document.id = id := by
  rw [getDocument, Option.map_eq_some_iff, currentDocuments]
  constructor
  · rintro ⟨e, hget, rfl⟩
    obtain ⟨he, hid⟩ := mem_of_get hget
    exact ⟨List.mem_map_of_mem he, hid⟩
  · rintro ⟨hdocument, rfl⟩
    obtain ⟨e, he, rfl⟩ := List.mem_map.mp hdocument
    exact ⟨e, h.unique.get_eq he, rfl⟩

theorem searchCandidates_eq (unicode : Unicode) (index : RunSearchIndex) (query : JsString)
    (maxEditDistance : Option ℚ) :
    ∃ ids : List JsString, ids.Nodup ∧
      searchCandidates unicode index query maxEditDistance = ids.filterMap (getDocument index) ∧
      ∀ id, id ∈ ids ↔ queryTerms unicode query ≠ [] ∧
        ∀ term ∈ queryTerms unicode query, id ∈ termIds index maxEditDistance term := by
  unfold searchCandidates
  generalize queryTerms unicode query = terms
  simp only [List.length_eq_zero_iff]
  by_cases hterms : terms = []
  · exact ⟨[], List.nodup_nil, by simp [hterms], by simp [hterms]⟩
  · rw [if_neg hterms]
    rcases termCandidates_cases index maxEditDistance terms with ⟨hnone, term, hterm, hempty⟩ | hsome
    · refine ⟨[], List.nodup_nil, by rw [hnone]; rfl, fun id => ⟨fun hid => absurd hid List.not_mem_nil, fun hall => ?_⟩⟩
      have hid := hall.2 term hterm
      rwa [hempty] at hid
    · rw [hsome]
      have hperm := List.mergeSort_perm (terms.map (termIds index maxEditDistance)) fun a b => a.length ≤ b.length
      simp only
      cases hsorted : (terms.map (termIds index maxEditDistance)).mergeSort fun a b => a.length ≤ b.length with
      | nil =>
        rw [hsorted, List.nil_perm, List.map_eq_nil_iff] at hperm
        exact absurd hperm hterms
      | cons first others =>
        rw [hsorted] at hperm
        obtain ⟨term, -, hfirst⟩ := List.mem_map.mp (hperm.mem_iff.mp List.mem_cons_self)
        refine ⟨intersect first others, ?_, rfl, ?_⟩
        · rw [← hfirst]
          exact nodup_intersect (nodup_termIds index maxEditDistance term) others
        · intro id
          have hall : (∀ ids ∈ first :: others, id ∈ ids) ↔ ∀ ids ∈ terms.map (termIds index maxEditDistance), id ∈ ids :=
            forall_congr' fun ids => imp_congr_left hperm.mem_iff
          rw [List.forall_mem_cons, List.forall_mem_map] at hall
          rw [mem_intersect, hall]
          exact (and_iff_right hterms).symm

theorem mem_searchCandidates (h : Coherent unicode index) (query : JsString) (maxEditDistance : Option ℚ)
    (document : SearchDocument) :
    document ∈ searchCandidates unicode index query maxEditDistance ↔
      document ∈ currentDocuments index ∧ queryTerms unicode query ≠ [] ∧
        ∀ term ∈ queryTerms unicode query, document.id ∈ termIds index maxEditDistance term := by
  obtain ⟨ids, -, heq, hids⟩ := searchCandidates_eq unicode index query maxEditDistance
  simp only [heq, List.mem_filterMap, getDocument_eq_some h, ← hids]
  constructor
  · rintro ⟨id, hid, hdocument, rfl⟩
    exact ⟨hdocument, hid⟩
  · rintro ⟨hdocument, hid⟩
    exact ⟨document.id, hid, hdocument, rfl⟩

theorem nodup_searchCandidates (h : Coherent unicode index) (query : JsString) (maxEditDistance : Option ℚ) :
    (searchCandidates unicode index query maxEditDistance).Nodup := by
  obtain ⟨ids, hnodup, heq, -⟩ := searchCandidates_eq unicode index query maxEditDistance
  rw [heq]
  apply hnodup.filterMap
  intro id id' document hid hid'
  rw [Option.mem_def, getDocument_eq_some h] at hid hid'
  rw [← hid.2, ← hid'.2]

theorem searchCandidates_perm {other : RunSearchIndex} (h : Coherent unicode index) (h' : Coherent unicode other)
    (hsame : ∀ document, document ∈ currentDocuments index ↔ document ∈ currentDocuments other)
    (query : JsString) (maxEditDistance : Option ℚ) :
    (searchCandidates unicode index query maxEditDistance).Perm
      (searchCandidates unicode other query maxEditDistance) := by
  have hposted : Posted unicode (currentDocuments index) = Posted unicode (currentDocuments other) := by
    funext token id
    simp only [Posted, hsame]
  have hids : ∀ term id, id ∈ termIds index maxEditDistance term ↔ id ∈ termIds other maxEditDistance term := by
    intro term id
    rw [mem_termIds h.indexes, mem_termIds h'.indexes, hposted]
  rw [List.perm_ext_iff_of_nodup (nodup_searchCandidates h query maxEditDistance)
    (nodup_searchCandidates h' query maxEditDistance)]
  intro document
  simp only [mem_searchCandidates h, mem_searchCandidates h', hsame, hids]

end Candidates

section History

inductive Operation where
  | upsert (document : SearchDocument)
  | remove (id : JsString)

def step (unicode : Unicode) (index : RunSearchIndex) : Operation → RunSearchIndex
  | .upsert document => upsertDocument unicode index document
  | .remove id => removeDocument index id

def documentStep (documents : List SearchDocument) : Operation → List SearchDocument
  | .upsert document => put SearchDocument.id document documents
  | .remove id => remove SearchDocument.id id documents

variable (unicode : Unicode)

theorem step_coherent (index : RunSearchIndex) (operation : Operation) (h : Coherent unicode index) :
    Coherent unicode (step unicode index operation) := by
  cases operation with
  | upsert document => exact upsertDocument_coherent h document
  | remove id => exact removeDocument_coherent h id

theorem currentDocuments_run (index : RunSearchIndex) (operations : List Operation) :
    currentDocuments (run (step unicode) index operations) =
      run documentStep (currentDocuments index) operations := by
  induction operations generalizing index with
  | nil => rfl
  | cons operation operations ih =>
    rw [run_cons, ih, run_cons]
    congr 1
    cases operation with
    | upsert document => exact currentDocuments_upsertDocument unicode index document
    | remove id => exact currentDocuments_removeDocument index id

theorem index_history_independent (operations : List Operation) (documents : List SearchDocument)
    (hcurrent : documents.Perm (run documentStep [] operations)) (query : JsString) (maxEditDistance : Option ℚ) :
    Indexes (run (step unicode) {} operations) (Posted unicode documents) ∧
      (searchCandidates unicode (run (step unicode) {} operations) query maxEditDistance).Perm
        (searchCandidates unicode (createRunSearchIndex unicode documents) query maxEditDistance) := by
  have hrun : Coherent unicode (run (step unicode) {} operations) :=
    run_invariant (step_coherent unicode) (coherent_empty unicode) operations
  have hmem : ∀ document, document ∈ currentDocuments (run (step unicode) {} operations) ↔ document ∈ documents := by
    intro document
    rw [currentDocuments_run]
    exact hcurrent.symm.mem_iff
  have hunique : UniqueKeys SearchDocument.id documents := by
    have hids := hrun.uniqueIds
    rw [currentDocuments_run] at hids
    exact hids.subperm hcurrent.subperm
  have hfresh : currentDocuments (createRunSearchIndex unicode documents) = documents :=
    currentDocuments_addDocuments {} documents hunique
  refine ⟨hrun.indexes.congr fun token id => ?_, ?_⟩
  · simp only [Posted, hmem]
  · apply searchCandidates_perm hrun (addDocuments_coherent (coherent_empty unicode) documents)
    intro document
    rw [hmem]
    exact (congrArg (document ∈ ·) hfresh).symm.to_iff

def asciiUnicode : Unicode where
  toLowerCase := lowerAscii
  letterOrNumber
    | [u] => (0x30 ≤ u.toNat && u.toNat ≤ 0x39) || (0x41 ≤ u.toNat && u.toNat ≤ 0x5A) ||
        (0x61 ≤ u.toNat && u.toNat ≤ 0x7A)
    | _ => false

def runDocument (id value : String) : SearchDocument := ⟨ofString id, [⟨ofString value⟩]⟩

theorem reindexed_run_forgets :
    (searchCandidates asciiUnicode (run (step asciiUnicode) {}
        [.upsert (runDocument "run-a" "run-a"), .upsert (runDocument "run-b" "run-old"), .remove (ofString "run-a"),
          .upsert (runDocument "run-b" "run-new")]) (ofString "run-old") none).Perm
      (searchCandidates asciiUnicode (createRunSearchIndex asciiUnicode [runDocument "run-b" "run-new"])
        (ofString "run-old") none) :=
  (index_history_independent asciiUnicode _ [runDocument "run-b" "run-new"] (List.Perm.of_eq (by rfl))
    (ofString "run-old") none).2

end History

section Literals

variable {unicode : Unicode} {index : RunSearchIndex} {term token : JsString}

theorem prefixKey_eq (h : term <+: token) (hlength : 3 ≤ term.length) : prefixKey token = prefixKey term := by
  have hle := h.length_le
  obtain ⟨rest, rfl⟩ := h
  rw [prefixKey, prefixKey, min_eq_left hlength, min_eq_left (by omega), List.take_append_of_le_length hlength]

theorem literal_of_isInfix (hlength : 3 ≤ term.length) (h : term <:+: token) : Literal term token := by
  by_cases heq : token = term
  · exact .inl heq
  · by_cases hpre : term <+: token
    · exact .inr (.inl ⟨prefixKey_eq hpre hlength, heq, hpre⟩)
    · have hle := h.length_le
      exact .inr (.inr ⟨by omega, by simp [heq, hpre, hle], h⟩)

def Inner (term token : JsString) : Prop := token = term ∨ ¬term <+: token ∧ term <:+: token

theorem literal_two_iff (hlength : term.length = 2) : Literal term token ↔ Inner term token := by
  have hbucket : ¬(prefixKey token = prefixKey term ∧ token ≠ term ∧ term <+: token) := by
    rintro ⟨hkey, hne, hpre⟩
    have hle := hpre.length_le
    have hlonger : token.length ≠ 2 := fun h => hne (hpre.eq_of_length (by omega)).symm
    have hlengths := congrArg List.length hkey
    simp only [prefixKey, List.length_take] at hlengths
    omega
  have hscan : (2 ≤ term.length ∧ ¬(token.length < term.length ∨ token = term ∨ term <+: token) ∧ term <:+: token) ↔
      ¬term <+: token ∧ term <:+: token := by
    constructor
    · rintro ⟨-, hskip, hinfix⟩
      exact ⟨fun hpre => hskip (.inr (.inr hpre)), hinfix⟩
    · rintro ⟨hpre, hinfix⟩
      have hle := hinfix.length_le
      refine ⟨hlength.ge, ?_, hinfix⟩
      rintro (hshort | rfl | hstart)
      · omega
      · exact hpre (List.prefix_refl _)
      · exact hpre hstart
  rw [Literal, Inner, hscan]
  simp only [hbucket, false_or]

theorem posted_iff (h : Coherent unicode index) {document : SearchDocument} (hdocument : document ∈ currentDocuments index) :
    Posted unicode (currentDocuments index) token document.id ↔ token ∈ uniqueTokens unicode document := by
  constructor
  · rintro ⟨other, hother, hid, htoken⟩
    rwa [← h.uniqueIds.eq hother hdocument hid]
  · exact fun htoken => ⟨document, hdocument, rfl, htoken⟩

theorem there_iff (index : RunSearchIndex) : (∃ id, Posted unicode (currentDocuments index) token id) ↔
    ∃ document ∈ currentDocuments index, token ∈ uniqueTokens unicode document := by
  constructor
  · rintro ⟨id, document, hdocument, -, htoken⟩
    exact ⟨document, hdocument, htoken⟩
  · rintro ⟨document, hdocument, htoken⟩
    exact ⟨document.id, document, hdocument, rfl, htoken⟩

theorem mem_oneTerm (h : Coherent unicode index) {query : JsString} (hquery : queryTerms unicode query = [term])
    (maxEditDistance : Option ℚ) {document : SearchDocument} (hdocument : document ∈ currentDocuments index) :
    document ∈ searchCandidates unicode index query maxEditDistance ↔
      ∃ token ∈ uniqueTokens unicode document,
        Matching (fun t => ∃ id, Posted unicode (currentDocuments index) t id) term maxEditDistance token := by
  rw [mem_searchCandidates h, hquery]
  simp only [hdocument, List.cons_ne_nil, ne_eq, not_false_eq_true, true_and, List.mem_singleton, forall_eq,
    mem_termIds h.indexes, posted_iff h hdocument, and_comm]

/-- A search for the term hands every document to the ranking that has a token which is the term, starts with it or
contains it. -/
def FindsLiterals (unicode : Unicode) (index : RunSearchIndex) (query term : JsString) (maxEditDistance : Option ℚ) :
    Prop :=
  ∀ document ∈ currentDocuments index,
    (∃ token ∈ uniqueTokens unicode document, token = term ∨ term <+: token ∨ term <:+: token) →
      document ∈ searchCandidates unicode index query maxEditDistance

/-- A document with a longer token that starts with the two characters has them in another place too, or no document
has and one of its tokens is near enough to be taken for a misspelling. -/
def FoundElsewhere (unicode : Unicode) (index : RunSearchIndex) (term : JsString) (maxEditDistance : Option ℚ) : Prop :=
  ∀ document ∈ currentDocuments index, (∃ token ∈ uniqueTokens unicode document, term <+: token ∧ token ≠ term) →
    (∃ token ∈ uniqueTokens unicode document, Inner term token) ∨
      (∀ other ∈ currentDocuments index, ∀ token ∈ uniqueTokens unicode other, ¬Inner term token) ∧
        0 < maxEditDistanceFor term maxEditDistance ∧
        ∃ token ∈ uniqueTokens unicode document,
          (token.length : ℚ) ∈ lengthsWithin term (maxEditDistanceFor term maxEditDistance) ∧
            boundedEditDistance term token (maxEditDistanceFor term maxEditDistance) ≤
              maxEditDistanceFor term maxEditDistance

theorem findsLiterals_two_iff (h : Coherent unicode index) {query : JsString}
    (hquery : queryTerms unicode query = [term]) (hlength : term.length = 2) (maxEditDistance : Option ℚ) :
    FindsLiterals unicode index query term maxEditDistance ↔ FoundElsewhere unicode index term maxEditDistance := by
  have hthere : ∀ {document : SearchDocument} {token : JsString}, document ∈ currentDocuments index →
      token ∈ uniqueTokens unicode document → ∃ id, Posted unicode (currentDocuments index) token id :=
    fun hdocument htoken => (there_iff index).mpr ⟨_, hdocument, htoken⟩
  constructor
  · rintro hfinds document hdocument ⟨token, htoken, hpre, -⟩
    have hmem := hfinds document hdocument ⟨token, htoken, .inr (.inl hpre)⟩
    obtain ⟨found, hfound, -, hliteral | ⟨hnone, hpos, hnear⟩⟩ := (mem_oneTerm h hquery maxEditDistance hdocument).mp hmem
    · exact .inl ⟨found, hfound, (literal_two_iff hlength).mp hliteral⟩
    · refine .inr ⟨?_, hpos, found, hfound, hnear⟩
      intro other hother token htoken hinner
      exact hnone token (hthere hother htoken) ((literal_two_iff hlength).mpr hinner)
  · rintro hcovered document hdocument ⟨token, htoken, hmatch⟩
    rw [mem_oneTerm h hquery maxEditDistance hdocument]
    by_cases hinner : Inner term token
    · exact ⟨token, htoken, hthere hdocument htoken, .inl ((literal_two_iff hlength).mpr hinner)⟩
    · have hne : token ≠ term := fun heq => hinner (.inl heq)
      have hinfix : term <:+: token := by
        obtain heq | hpre | hinfix := hmatch
        · exact absurd heq hne
        · exact hpre.isInfix
        · exact hinfix
      have hpre : term <+: token := by
        by_contra hnot
        exact hinner (.inr ⟨hnot, hinfix⟩)
      obtain ⟨found, hfound, hinner⟩ | ⟨hnone, hpos, found, hfound, hnear⟩ :=
        hcovered document hdocument ⟨token, htoken, hpre, hne⟩
      · exact ⟨found, hfound, hthere hdocument hfound, .inl ((literal_two_iff hlength).mpr hinner)⟩
      · refine ⟨found, hfound, hthere hdocument hfound, .inr ⟨?_, hpos, hnear⟩⟩
        intro other hother hliteral
        obtain ⟨owner, howner, htoken⟩ := (there_iff index).mp hother
        exact hnone owner howner other htoken ((literal_two_iff hlength).mp hliteral)

theorem literal_matches_found_iff (operations : List Operation) {query : JsString}
    (hquery : queryTerms unicode query = [term]) (hlength : 2 ≤ term.length) (maxEditDistance : Option ℚ) :
    FindsLiterals unicode (run (step unicode) {} operations) query term maxEditDistance ↔
      3 ≤ term.length ∨ FoundElsewhere unicode (run (step unicode) {} operations) term maxEditDistance := by
  have hrun : Coherent unicode (run (step unicode) {} operations) :=
    run_invariant (step_coherent unicode) (coherent_empty unicode) operations
  by_cases hthree : 3 ≤ term.length
  · refine iff_of_true ?_ (.inl hthree)
    rintro document hdocument ⟨token, htoken, hmatch⟩
    have hinfix : term <:+: token := by
      obtain rfl | hpre | hinfix := hmatch
      · exact List.infix_refl _
      · exact hpre.isInfix
      · exact hinfix
    rw [mem_oneTerm hrun hquery maxEditDistance hdocument]
    exact ⟨token, htoken, (there_iff _).mpr ⟨document, hdocument, htoken⟩, .inl (literal_of_isInfix hthree hinfix)⟩
  · rw [findsLiterals_two_iff hrun hquery (by omega) maxEditDistance]
    simp only [hthree, false_or]

theorem three_characters_found : FindsLiterals asciiUnicode
    (run (step asciiUnicode) {} [.upsert (runDocument "run-a" "timeout")]) (ofString "tim") (ofString "tim") none :=
  (literal_matches_found_iff [.upsert (runDocument "run-a" "timeout")] (by decide +kernel) (by decide +kernel) none).mpr
    (.inl (by decide +kernel))

theorem two_characters_missed : ¬FindsLiterals asciiUnicode
    (run (step asciiUnicode) {} [.upsert (runDocument "run-a" "timeout")]) (ofString "ti") (ofString "ti") none := by
  -- the word timeout is not found under its first two letters
  intro hfinds
  have hempty : searchCandidates asciiUnicode (run (step asciiUnicode) {} [.upsert (runDocument "run-a" "timeout")])
      (ofString "ti") none = [] := by
    rw [← List.length_eq_zero_iff]
    decide +kernel
  have hmem := hfinds (runDocument "run-a" "timeout") (by exact List.mem_singleton_self _)
    ⟨ofString "timeout", by decide +kernel, .inr (.inl (by decide +kernel))⟩
  rw [hempty] at hmem
  cases hmem

end Literals

end CrashLab.SearchIndex
