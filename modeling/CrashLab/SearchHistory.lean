import CrashLab.SearchIndex

namespace CrashLab.SearchIndex

open BucketMaps Histories JsStrings KeyedLists Occurrences

/-- The four tables hold the pairs of a token and an id that `R` has, and their tokens, each once. -/
structure Indexes (index : RunSearchIndex) (R : JsString → JsString → Prop) : Prop where
  postings : Lists index.postings R
  tokensByLength : Lists index.tokensByLength fun n t => (t.length : ℚ) = n ∧ ∃ id, R t id
  prefixBuckets : Lists index.prefixBuckets fun k t => prefixKey t = k ∧ ∃ id, R t id
  mem_allTokens : ∀ t, t ∈ index.allTokens ↔ ∃ id, R t id
  nodup_allTokens : index.allTokens.Nodup

section Tables

variable {index : RunSearchIndex} {R S : JsString → JsString → Prop} {token id : JsString}

theorem Indexes.congr (h : Indexes index R) (hiff : ∀ t i, R t i ↔ S t i) : Indexes index S := by
  have heq : R = S := by
    funext t i
    exact propext (hiff t i)
  exact heq ▸ h

theorem indexes_empty : Indexes {} fun _ _ => False :=
  ⟨lists_empty, lists_empty.congr (by simp), lists_empty.congr (by simp), by simp, by simp⟩

theorem Indexes.keep {postings : JsString → Option (List JsString)} (h : Indexes index R)
    (hposted : Lists postings S) (hsame : ∀ t, (∃ i, S t i) ↔ ∃ i, R t i) :
    Indexes { index with postings := postings } S := by
  refine ⟨hposted, ?_, ?_, ?_, h.nodup_allTokens⟩
  · exact h.tokensByLength.congr fun n t => by rw [hsame]
  · exact h.prefixBuckets.congr fun k t => by rw [hsame]
  · intro t
    rw [hsame]
    exact h.mem_allTokens t

theorem Indexes.register {postings : JsString → Option (List JsString)} (h : Indexes index R)
    (hposted : Lists postings S) (hfresh : ¬ ∃ i, R token i)
    (hhas : ∀ t, (∃ i, S t i) ↔ (∃ i, R t i) ∨ t = token) :
    Indexes (registerToken { index with postings := postings } token) S := by
  refine ⟨hposted, ?_, ?_, ?_, ?_⟩
  · exact (h.tokensByLength.add hfresh).congr fun n t => by rw [hhas]
  · exact (h.prefixBuckets.add hfresh).congr fun k t => by rw [hhas]
  · intro t
    simp only [registerToken, hhas, List.mem_append, List.mem_singleton, h.mem_allTokens]
  · simp only [registerToken]
    rw [List.nodup_append_comm, List.singleton_append, List.nodup_cons, h.mem_allTokens]
    exact ⟨hfresh, h.nodup_allTokens⟩

theorem Indexes.unregister {postings : JsString → Option (List JsString)} (h : Indexes index R)
    (hposted : Lists postings S) (hhas : ∀ t, (∃ i, S t i) ↔ (∃ i, R t i) ∧ t ≠ token) :
    Indexes (unregisterToken { index with postings := postings } token) S := by
  refine ⟨hposted, ?_, ?_, ?_, h.nodup_allTokens.erase token⟩
  · exact (h.tokensByLength.drop token).congr fun n t => by rw [hhas]
  · exact (h.prefixBuckets.drop token).congr fun k t => by rw [hhas]
  · intro t
    simp only [unregisterToken, hhas, h.nodup_allTokens.mem_erase_iff, h.mem_allTokens, and_comm]

theorem addPosting_indexes (h : Indexes index R) (hnew : ¬ R token id) :
    Indexes (addPosting index token id) fun t i => R t i ∨ t = token ∧ i = id := by
  have hposted := h.postings.push hnew
  have hhas : ∀ t, (∃ i, R t i ∨ t = token ∧ i = id) ↔ (∃ i, R t i) ∨ t = token := by
    intro t
    rw [exists_or]
    simp
  have hthere := h.postings.isSome_iff token
  unfold push at hposted
  unfold addPosting
  cases hp : index.postings token with
  | some posting =>
    simp only [hp] at hposted ⊢
    apply h.keep hposted
    intro t
    rw [hhas, or_iff_left_of_imp]
    rintro rfl
    rw [← hthere, hp]
    rfl
  | none =>
    simp only [hp] at hposted ⊢
    apply h.register hposted _ hhas
    rw [← hthere, hp]
    simp

theorem removePosting_indexes (h : Indexes index R) (token id : JsString) :
    Indexes (removePosting index token id) fun t i => R t i ∧ ¬(t = token ∧ i = id) := by
  have hposted := h.postings.pull token id
  unfold pull at hposted
  unfold removePosting
  cases hp : index.postings token with
  | none =>
    apply h.congr
    intro t i
    refine ⟨fun hR => ⟨hR, ?_⟩, fun hR => hR.1⟩
    rintro ⟨rfl, rfl⟩
    rw [← h.postings.mem, hp] at hR
    exact List.not_mem_nil hR
  | some posting =>
    simp only [hp] at hposted ⊢
    have hnodup : posting.Nodup := by simpa [hp] using h.postings.nodup token
    have hleft : ∀ i, i ∈ posting.erase id ↔ R token i ∧ i ≠ id := by
      intro i
      rw [hnodup.mem_erase_iff, ← h.postings.mem, hp, and_comm]
      rfl
    by_cases hempty : posting.erase id = []
    · rw [if_pos hempty] at hposted
      rw [if_neg (not_not.mpr hempty)]
      apply h.unregister hposted
      intro t
      constructor
      · rintro ⟨i, hR, hne⟩
        refine ⟨⟨i, hR⟩, ?_⟩
        rintro rfl
        have hin := (hleft i).mpr ⟨hR, fun hi => hne ⟨rfl, hi⟩⟩
        rw [hempty] at hin
        exact List.not_mem_nil hin
      · rintro ⟨⟨i, hR⟩, hne⟩
        exact ⟨i, hR, fun hboth => hne hboth.1⟩
    · rw [if_neg hempty] at hposted
      rw [if_pos hempty]
      apply h.keep hposted
      obtain ⟨j, hj⟩ := List.exists_mem_of_ne_nil _ hempty
      intro t
      refine ⟨fun ⟨i, hR, _⟩ => ⟨i, hR⟩, ?_⟩
      rintro ⟨i, hR⟩
      by_cases ht : t = token
      · subst ht
        exact ⟨j, ((hleft j).mp hj).1, fun hboth => ((hleft j).mp hj).2 hboth.2⟩
      · exact ⟨i, hR, fun hboth => ht hboth.1⟩

theorem addPostings_indexes {tokens : List JsString} (hnodup : tokens.Nodup) (id : JsString)
    (h : Indexes index R) (hnew : ∀ t ∈ tokens, ¬ R t id) :
    Indexes (tokens.foldl (fun index token => addPosting index token id) index)
      fun t i => R t i ∨ t ∈ tokens ∧ i = id := by
  induction tokens generalizing index R with
  | nil => exact h.congr (by simp)
  | cons token tokens ih =>
    rw [List.nodup_cons] at hnodup
    rw [List.forall_mem_cons] at hnew
    rw [List.foldl_cons]
    apply (ih hnodup.2 (addPosting_indexes h hnew.1) ?_).congr
    · intro t i
      simp only [List.mem_cons]
      tauto
    · rintro t ht (hR | ⟨rfl, -⟩)
      · exact hnew.2 t ht hR
      · exact hnodup.1 ht

theorem removePostings_indexes (tokens : List JsString) (id : JsString) (h : Indexes index R) :
    Indexes (tokens.foldl (fun index token => removePosting index token id) index)
      fun t i => R t i ∧ ¬(t ∈ tokens ∧ i = id) := by
  induction tokens generalizing index R with
  | nil => exact h.congr (by simp)
  | cons token tokens ih =>
    rw [List.foldl_cons]
    apply (ih (removePosting_indexes h token id)).congr
    intro t i
    simp only [List.mem_cons]
    tauto

end Tables

section Documents

variable {unicode : Unicode} {index : RunSearchIndex}

@[simp] theorem addPosting_documents (index : RunSearchIndex) (token id : JsString) :
    (addPosting index token id).documents = index.documents := by
  unfold addPosting
  split <;> rfl

@[simp] theorem removePosting_documents (index : RunSearchIndex) (token id : JsString) :
    (removePosting index token id).documents = index.documents := by
  unfold removePosting
  split
  · rfl
  · split_ifs <;> rfl

theorem foldl_documents {step : RunSearchIndex → JsString → RunSearchIndex}
    (h : ∀ index token, (step index token).documents = index.documents) (index : RunSearchIndex)
    (tokens : List JsString) : (tokens.foldl step index).documents = index.documents := by
  induction tokens generalizing index with
  | nil => rfl
  | cons token tokens ih => rw [List.foldl_cons, ih, h]

theorem removeDocument_documents (index : RunSearchIndex) (id : JsString) :
    (removeDocument index id).documents = remove IndexedDocument.key id index.documents := by
  unfold removeDocument
  cases hget : get IndexedDocument.key id index.documents with
  | none =>
    rw [get_eq_none] at hget
    exact (List.filter_eq_self.mpr fun e he => by simpa using hget e he).symm
  | some existing => exact foldl_documents (fun index token => removePosting_documents index token id) _ _

theorem upsertDocument_documents (unicode : Unicode) (index : RunSearchIndex) (document : SearchDocument) :
    (upsertDocument unicode index document).documents =
      put IndexedDocument.key ⟨document, uniqueTokens unicode document⟩ index.documents := by
  rw [upsertDocument, foldl_documents fun index token => addPosting_documents index token document.id]
  have hkey : IndexedDocument.key ⟨document, uniqueTokens unicode document⟩ = document.id := rfl
  simp only [put, removeDocument_documents, remove, hkey, List.filter_filter, Bool.and_self]

def currentDocuments (index : RunSearchIndex) : List SearchDocument :=
  index.documents.map IndexedDocument.document

theorem currentDocuments_removeDocument (index : RunSearchIndex) (id : JsString) :
    currentDocuments (removeDocument index id) = remove SearchDocument.id id (currentDocuments index) := by
  rw [currentDocuments, removeDocument_documents, currentDocuments, remove, remove, List.filter_map]
  rfl

theorem currentDocuments_upsertDocument (unicode : Unicode) (index : RunSearchIndex) (document : SearchDocument) :
    currentDocuments (upsertDocument unicode index document) =
      put SearchDocument.id document (currentDocuments index) := by
  rw [currentDocuments, upsertDocument_documents, put, List.map_append, put, currentDocuments, remove, remove,
    List.filter_map]
  rfl

/-- `token` is one of the tokens of the document under `id`. -/
def Posted (unicode : Unicode) (documents : List SearchDocument) (token id : JsString) : Prop :=
  ∃ document ∈ documents, document.id = id ∧ token ∈ uniqueTokens unicode document

structure Coherent (unicode : Unicode) (index : RunSearchIndex) : Prop where
  unique : UniqueKeys IndexedDocument.key index.documents
  tokens : ∀ e ∈ index.documents, e.tokens = uniqueTokens unicode e.document
  indexes : Indexes index (Posted unicode (currentDocuments index))

theorem nodup_uniqueTokens (unicode : Unicode) (document : SearchDocument) :
    (uniqueTokens unicode document).Nodup := by
  have hfields : ∀ (fields : List SearchField) (tokens : List JsString), tokens.Nodup →
      (fields.foldl (fun tokens field => addAllNew tokens (tokenize unicode field.value)) tokens).Nodup := by
    intro fields
    induction fields with
    | nil => exact fun tokens h => h
    | cons field fields ih => exact fun tokens h => ih _ (nodup_addAllNew h _)
  exact hfields _ _ (nodup_addAllNew List.nodup_nil _)

theorem coherent_empty (unicode : Unicode) : Coherent unicode {} :=
  ⟨List.nodup_nil, by simp, indexes_empty.congr (by simp [Posted, currentDocuments])⟩

theorem posted_remove {documents : List SearchDocument} (unique : UniqueKeys SearchDocument.id documents)
    {existing : SearchDocument} (hmem : existing ∈ documents) (token id : JsString) :
    Posted unicode (remove SearchDocument.id existing.id documents) token id ↔
      Posted unicode documents token id ∧ ¬(token ∈ uniqueTokens unicode existing ∧ id = existing.id) := by
  constructor
  · rintro ⟨document, hdoc, rfl, htoken⟩
    rw [mem_remove] at hdoc
    exact ⟨⟨document, hdoc.1, rfl, htoken⟩, fun hboth => hdoc.2 hboth.2⟩
  · rintro ⟨⟨document, hdoc, rfl, htoken⟩, hother⟩
    refine ⟨document, mem_remove.mpr ⟨hdoc, fun hid => hother ⟨?_, hid⟩⟩, rfl, htoken⟩
    rwa [← unique.eq hdoc hmem hid]

theorem posted_put (documents : List SearchDocument) (document : SearchDocument) (token id : JsString) :
    Posted unicode (put SearchDocument.id document documents) token id ↔
      Posted unicode (remove SearchDocument.id document.id documents) token id ∨
        token ∈ uniqueTokens unicode document ∧ id = document.id := by
  simp only [Posted, put, List.mem_append, List.mem_singleton, or_and_right, exists_or, exists_eq_left]
  exact or_congr_right ⟨fun h => ⟨h.2, h.1.symm⟩, fun h => ⟨h.2.symm, h.1⟩⟩

theorem Coherent.uniqueIds (h : Coherent unicode index) :
    UniqueKeys SearchDocument.id (currentDocuments index) := by
  have hunique := h.unique
  rw [UniqueKeys] at hunique ⊢
  rwa [currentDocuments, List.map_map]

theorem removeDocument_coherent (h : Coherent unicode index) (id : JsString) :
    Coherent unicode (removeDocument index id) := by
  refine ⟨?_, ?_, ?_⟩
  · rw [removeDocument_documents]
    exact h.unique.remove id
  · intro e he
    rw [removeDocument_documents] at he
    exact h.tokens e (mem_remove.mp he).1
  · have hcurrent := currentDocuments_removeDocument index id
    unfold removeDocument at hcurrent ⊢
    cases hget : get IndexedDocument.key id index.documents with
    | none => exact h.indexes
    | some existing =>
      obtain ⟨hmem, rfl⟩ := mem_of_get hget
      simp only [hget] at hcurrent ⊢
      rw [hcurrent]
      have hstart : Indexes { index with documents := remove IndexedDocument.key existing.key index.documents }
          (Posted unicode (currentDocuments index)) :=
        ⟨h.indexes.postings, h.indexes.tokensByLength, h.indexes.prefixBuckets, h.indexes.mem_allTokens,
          h.indexes.nodup_allTokens⟩
      apply (removePostings_indexes existing.tokens existing.key hstart).congr
      intro t i
      rw [h.tokens existing hmem]
      exact (posted_remove h.uniqueIds (List.mem_map_of_mem hmem) t i).symm

theorem upsertDocument_coherent (h : Coherent unicode index) (document : SearchDocument) :
    Coherent unicode (upsertDocument unicode index document) := by
  refine ⟨?_, ?_, ?_⟩
  · rw [upsertDocument_documents]
    exact h.unique.put _
  · intro e he
    rw [upsertDocument_documents, mem_put] at he
    rcases he with he | rfl
    · exact h.tokens e he.1
    · rfl
  · have hremoved := (removeDocument_coherent h document.id).indexes
    rw [currentDocuments_removeDocument] at hremoved
    rw [currentDocuments_upsertDocument, upsertDocument]
    have hstart : ∀ documents, Indexes { removeDocument index document.id with documents := documents }
        (Posted unicode (remove SearchDocument.id document.id (currentDocuments index))) :=
      fun documents => ⟨hremoved.postings, hremoved.tokensByLength, hremoved.prefixBuckets,
        hremoved.mem_allTokens, hremoved.nodup_allTokens⟩
    apply (addPostings_indexes (nodup_uniqueTokens unicode document) document.id (hstart _) ?_).congr
    · exact fun t i => (posted_put (currentDocuments index) document t i).symm
    · rintro t - ⟨other, hother, hid, -⟩
      exact (mem_remove.mp hother).2 hid

theorem addDocuments_coherent (h : Coherent unicode index) (documents : List SearchDocument) :
    Coherent unicode (addDocuments unicode index documents) :=
  @run_invariant _ _ (upsertDocument unicode) (Coherent unicode)
    (fun _ document h => upsertDocument_coherent h document) index h documents

theorem currentDocuments_addDocuments (index : RunSearchIndex) (documents : List SearchDocument)
    (unique : UniqueKeys SearchDocument.id (currentDocuments index ++ documents)) :
    currentDocuments (addDocuments unicode index documents) = currentDocuments index ++ documents := by
  induction documents generalizing index with
  | nil => rw [List.append_nil]; rfl
  | cons document documents ih =>
    have hcurrent : currentDocuments (upsertDocument unicode index document) = currentDocuments index ++ [document] := by
      rw [currentDocuments_upsertDocument, put, remove, List.filter_eq_self.mpr]
      intro other hother
      rw [UniqueKeys, List.map_append, List.nodup_append] at unique
      rw [decide_eq_true_iff]
      exact unique.2.2 _ (List.mem_map_of_mem hother) _ (List.mem_map_of_mem List.mem_cons_self)
    have happend : currentDocuments (upsertDocument unicode index document) ++ documents =
        currentDocuments index ++ document :: documents := by
      rw [hcurrent, List.append_assoc, List.singleton_append]
    rw [← happend] at unique ⊢
    exact ih _ unique

end Documents

end CrashLab.SearchIndex
