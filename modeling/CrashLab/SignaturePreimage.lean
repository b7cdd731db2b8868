import CrashLab.Digest
import Mathlib.Data.String.Basic

namespace CrashLab.SignatureHash

open Digest (asBytes_injective)

def orEmpty (texts : List String) : List String := if texts = [] then [""] else texts

def fieldTexts (fields : List (String × String)) : List String := fields.flatMap fun field => [field.1, field.2]

@[simp] theorem orEmpty_nil : orEmpty [] = [""] := rfl

@[simp] theorem orEmpty_cons (text : String) (texts : List String) : orEmpty (text :: texts) = text :: texts := rfl

theorem orEmpty_ne_nil (texts : List String) : orEmpty texts ≠ [] := by
  cases texts <;> exact List.cons_ne_nil _ _

theorem orEmpty_of_ne_nil {texts : List String} (h : texts ≠ []) : orEmpty texts = texts := if_neg h

@[simp] theorem fieldTexts_nil : fieldTexts [] = [] := rfl

@[simp] theorem fieldTexts_cons (field : String × String) (fields : List (String × String)) :
    fieldTexts (field :: fields) = field.1 :: field.2 :: fieldTexts fields := rfl

@[simp] theorem fieldTexts_append (fields fields' : List (String × String)) :
    fieldTexts (fields ++ fields') = fieldTexts fields ++ fieldTexts fields' := List.flatMap_append

theorem fieldTexts_injective : Function.Injective fieldTexts := by
  intro fields fields' h
  induction fields generalizing fields' with
  | nil =>
    cases fields' with
    | nil => rfl
    | cons field' fields' => exact nomatch h
  | cons field fields ih =>
    cases fields' with
    | nil => exact nomatch h
    | cons field' fields' =>
      simp only [fieldTexts_cons, List.cons.injEq] at h
      obtain ⟨hkey, hvalue, hrest⟩ := h
      rw [Prod.ext hkey hvalue, ih hrest]

theorem intercalate_append {sep : UInt8} {texts texts' : List (List UInt8)} (h : texts ≠ []) (h' : texts' ≠ []) :
    [sep].intercalate (texts ++ texts') = [sep].intercalate texts ++ [sep] ++ [sep].intercalate texts' := by
  induction texts with
  | nil => exact absurd rfl h
  | cons text texts ih =>
    cases texts with
    | nil =>
      obtain ⟨text', texts', rfl⟩ := List.exists_cons_of_ne_nil h'
      rw [List.singleton_append, List.intercalate_cons_cons, List.intercalate_singleton]
    | cons other texts =>
      rw [List.cons_append, List.cons_append, List.intercalate_cons_cons, ← List.cons_append,
        ih (List.cons_ne_nil _ _), List.intercalate_cons_cons]
      simp only [List.append_assoc]

namespace SignatureHasher

def texts (h : SignatureHasher) : List String := orEmpty h.categoryStack ++ orEmpty (fieldTexts h.fields)

attribute [grind =] texts

structure Plain (h : SignatureHasher) : Prop where
  sorted : h.fields.Pairwise (·.1 < ·.1)
  plain : ∀ text ∈ h.texts, fieldSep ∉ asBytes text

theorem mem_insertField {key value : String} {fields : List (String × String)} {field : String × String}
    (h : field ∈ insertField key value fields) : field = (key, value) ∨ field ∈ fields := by
  fun_induction insertField key value fields with
  | case1 => exact Or.inl (List.mem_singleton.mp h)
  | case2 first fields _ => exact List.mem_cons.mp h
  | case3 first fields _ _ =>
    rcases List.mem_cons.mp h with h | h
    · exact Or.inl h
    · exact Or.inr (List.mem_cons_of_mem _ h)
  | case4 first fields _ _ ih =>
    rcases List.mem_cons.mp h with rfl | h
    · exact Or.inr List.mem_cons_self
    · exact (ih h).imp_right (List.mem_cons_of_mem _)

theorem insertField_sorted {fields : List (String × String)} (key value : String)
    (h : fields.Pairwise (·.1 < ·.1)) : (insertField key value fields).Pairwise (·.1 < ·.1) := by
  fun_induction insertField key value fields with
  | case1 => exact List.pairwise_singleton _ _
  | case2 first fields hlt =>
    refine List.pairwise_cons.mpr ⟨?_, h⟩
    intro field hfield
    rcases List.mem_cons.mp hfield with rfl | hfield
    · exact hlt
    · exact hlt.trans ((List.pairwise_cons.mp h).1 field hfield)
  | case3 first fields _ heq =>
    rw [List.pairwise_cons] at h ⊢
    rw [heq]
    exact h
  | case4 first fields hlt hne ih =>
    obtain ⟨hfirst, hrest⟩ := List.pairwise_cons.mp h
    refine List.pairwise_cons.mpr ⟨?_, ih hrest⟩
    intro field hfield
    rcases mem_insertField hfield with rfl | hfield
    · exact lt_of_le_of_ne (not_lt.mp hlt) (Ne.symm hne)
    · exact hfirst field hfield

theorem fields_intercalate (fields : List (String × String)) :
    [fieldSep].intercalate (fields.map fun field => asBytes field.1 ++ [fieldSep] ++ asBytes field.2) =
      [fieldSep].intercalate ((orEmpty (fieldTexts fields)).map asBytes) := by
  induction fields with
  | nil => simp [asBytes]
  | cons field fields ih =>
    cases fields with
    | nil => simp [List.intercalate_cons_cons]
    | cons other fields =>
      simp only [List.map_cons, fieldTexts_cons, orEmpty_cons] at ih ⊢
      rw [List.intercalate_cons_cons, ih, List.intercalate_cons_cons (l := asBytes field.1),
        List.intercalate_cons_cons (l := asBytes field.2)]
      simp only [List.append_assoc]

theorem preimage_eq (h : SignatureHasher) : h.preimage = [fieldSep].intercalate (h.texts.map asBytes) := by
  have hstack : [fieldSep].intercalate (h.categoryStack.map asBytes) =
      [fieldSep].intercalate ((orEmpty h.categoryStack).map asBytes) := by
    cases h.categoryStack with
    | nil => simp [asBytes]
    | cons category categories => rfl
  rw [preimage, hstack, fields_intercalate, texts, List.map_append, intercalate_append]
  · simpa using orEmpty_ne_nil _
  · simpa using orEmpty_ne_nil _

theorem preimage_eq_iff {h h' : SignatureHasher} (hplain : Plain h) (hplain' : Plain h') :
    h.preimage = h'.preimage ↔ h.texts = h'.texts := by
  have hsplit : ∀ {g : SignatureHasher}, Plain g →
      ([fieldSep].intercalate (g.texts.map asBytes)).splitOn fieldSep = g.texts.map asBytes := by
    intro g hg
    apply List.splitOn_intercalate
    · intro bytes hbytes
      obtain ⟨text, htext, rfl⟩ := List.mem_map.mp hbytes
      exact hg.plain text htext
    · simp [texts, orEmpty_ne_nil]
  rw [preimage_eq, preimage_eq]
  constructor
  · intro heq
    have hmap := congrArg (List.splitOn fieldSep) heq
    rw [hsplit hplain, hsplit hplain'] at hmap
    exact List.map_injective_iff.mpr asBytes_injective hmap
  · intro heq
    rw [heq]

theorem plain_of_texts {h h' : SignatureHasher} (hplain : Plain h) (hsorted : h'.fields.Pairwise (·.1 < ·.1))
    (htexts : h'.texts = h.texts) : Plain h' := ⟨hsorted, by rw [htexts]; exact hplain.plain⟩

theorem orEmpty_injective_of_length {texts texts' : List String} (h : orEmpty texts = orEmpty texts')
    (hlength : texts.length = texts'.length) : texts = texts' := by
  cases texts with
  | nil => exact (List.length_eq_zero_iff.mp hlength.symm).symm
  | cons text texts =>
    cases texts' with
    | nil => exact nomatch hlength
    | cons text' texts' => exact h

theorem orEmpty_fieldTexts_injective {fields fields' : List (String × String)}
    (h : orEmpty (fieldTexts fields) = orEmpty (fieldTexts fields')) : fields = fields' := by
  cases fields with
  | nil =>
    cases fields' with
    | nil => rfl
    | cons field' fields' => simp at h
  | cons field fields =>
    cases fields' with
    | nil => simp at h
    | cons field' fields' => exact fieldTexts_injective h

theorem eq_of_texts {h h' : SignatureHasher} (htexts : h.texts = h'.texts)
    (hlength : h.categoryStack.length = h'.categoryStack.length) : h = h' := by
  have hsections : (orEmpty h.categoryStack).length = (orEmpty h'.categoryStack).length := by
    unfold orEmpty
    split_ifs with hnil hnil' hnil'
    · rfl
    · exact absurd (List.length_eq_zero_iff.mp (hlength.symm.trans (by rw [hnil]; rfl))) hnil'
    · exact absurd (List.length_eq_zero_iff.mp (hlength.trans (by rw [hnil']; rfl))) hnil
    · exact hlength
  obtain ⟨hstack, hfields⟩ := List.append_inj htexts hsections
  cases h
  cases h'
  rw [mk.injEq]
  exact ⟨orEmpty_injective_of_length hstack hlength, orEmpty_fieldTexts_injective hfields⟩

/-- The two kinds of hashers whose texts can be cut in one way only: a lone category, or one field
whose value is not empty, behind a stack whose last two categories cannot be another field. -/
def Rigid (h : SignatureHasher) : Prop :=
  (∃ category, category ≠ "" ∧ h.categoryStack = [category] ∧ h.fields = []) ∨
    ∃ key value, value ≠ "" ∧ h.fields = [(key, value)] ∧ h.categoryStack ≠ [] ∧ h.categoryStack ≠ [""] ∧
      ∀ front category category', front ≠ [] → h.categoryStack = front ++ [category, category'] → ¬category < key

theorem orEmpty_eq_singleton {texts : List String} {text : String} (h : orEmpty texts = [text]) (hne : text ≠ "") :
    texts = [text] := by
  cases texts with
  | nil => exact absurd (List.singleton_inj.mp h).symm hne
  | cons other texts => exact h

theorem eq_of_lone_category {h : SignatureHasher} {category : String} (hne : category ≠ "")
    (htexts : h.texts = [category, ""]) : h.categoryStack = [category] ∧ h.fields = [] := by
  obtain ⟨stack, fields⟩ := h
  cases fields with
  | nil =>
    have hstack : orEmpty stack ++ [""] = [category] ++ [""] := htexts
    exact ⟨orEmpty_eq_singleton (List.append_cancel_right hstack) hne, rfl⟩
  | cons field fields =>
    have hlength := congrArg List.length htexts
    have hpos := List.length_pos_iff.mpr (orEmpty_ne_nil stack)
    simp only [texts, fieldTexts_cons, orEmpty_cons, List.length_append, List.length_cons, List.length_nil] at hlength
    omega

theorem eq_of_lone_field {h : SignatureHasher} {stack : List String} {key value : String} (hvalue : value ≠ "")
    (hempty : stack ≠ [""])
    (hlast : ∀ front category category', front ≠ [] → stack = front ++ [category, category'] → ¬category < key)
    (hsorted : h.fields.Pairwise (·.1 < ·.1)) (htexts : h.texts = stack ++ [key, value]) :
    h.categoryStack = stack ∧ h.fields = [(key, value)] := by
  obtain ⟨stack', fields⟩ := h
  rcases List.eq_nil_or_concat' fields with rfl | ⟨fields, field, rfl⟩
  · have hend := congrArg List.getLast? htexts
    simp only [texts, fieldTexts_nil, orEmpty_nil, List.getLast?_append] at hend
    exact absurd (Option.some.inj hend).symm hvalue
  · have hne : fieldTexts (fields ++ [field]) ≠ [] := by simp
    have hcut : orEmpty stack' ++ fieldTexts fields ++ [field.1, field.2] = stack ++ [key, value] := by
      rw [← htexts, texts, orEmpty_of_ne_nil hne]
      simp
    obtain ⟨hfront, hfield⟩ := List.append_inj' hcut rfl
    obtain ⟨hkey, hval, _⟩ : field.1 = key ∧ field.2 = value ∧ True := by simpa using hfield
    rcases List.eq_nil_or_concat' fields with rfl | ⟨fields, field', rfl⟩
    · rw [fieldTexts_nil, List.append_nil] at hfront
      refine ⟨?_, ?_⟩
      · cases stack' with
        | nil => exact absurd hfront.symm hempty
        | cons category stack' => exact hfront
      · exact congrArg (fun f => [f]) (Prod.ext hkey hval)
    · exfalso
      apply hlast (orEmpty stack' ++ fieldTexts fields) field'.1 field'.2 (by simp [orEmpty_ne_nil])
      · rw [← hfront]
        simp
      · rw [← hkey]
        have hpair := (List.pairwise_append.mp hsorted).2.2
        exact hpair field' (by simp) field (by simp)

theorem rigid_of_unique {h : SignatureHasher} (hplain : Plain h)
    (hunique : ∀ h', Plain h' → h'.texts = h.texts → h' = h) : Rigid h := by
  have hother : ∀ stack fields, fields.Pairwise (·.1 < ·.1) →
      orEmpty stack ++ orEmpty (fieldTexts fields) = h.texts → h = ⟨stack, fields⟩ := by
    intro stack fields hsorted htexts
    exact (hunique ⟨stack, fields⟩ (plain_of_texts hplain hsorted htexts) htexts).symm
  obtain ⟨stack, fields⟩ := h
  rcases List.eq_nil_or_concat' fields with rfl | ⟨fields, ⟨key, value⟩, rfl⟩
  · left
    rcases List.eq_nil_or_concat' stack with rfl | ⟨front, category, rfl⟩
    · exact nomatch hother [""] [] List.Pairwise.nil rfl
    · cases front with
      | nil =>
        refine ⟨category, ?_, rfl, rfl⟩
        rintro rfl
        exact nomatch hother [] [] List.Pairwise.nil rfl
      | cons first front =>
        have hfield := hother (first :: front) [(category, "")] (List.pairwise_singleton _ _) (by simp [texts])
        exact nomatch congrArg fields hfield
  · right
    cases fields with
    | cons first rest =>
      have hfields : fieldTexts (first :: rest ++ [(key, value)]) ≠ [] := by simp
      have hfield := hother (orEmpty stack ++ fieldTexts (first :: rest)) [(key, value)] (List.pairwise_singleton _ _)
        (by rw [orEmpty_of_ne_nil (by simp), texts, orEmpty_of_ne_nil hfields]; simp)
      have hlength := congrArg (fun g => g.fields.length) hfield
      simp at hlength
    | nil =>
      rw [List.nil_append] at hother ⊢
      refine ⟨key, value, ?_, rfl, ?_, ?_, ?_⟩
      · rintro rfl
        have hfield := hother (orEmpty stack ++ [key]) [] List.Pairwise.nil (by
          rw [orEmpty_of_ne_nil (by simp), texts]
          simp)
        exact nomatch congrArg SignatureHasher.fields hfield
      · rintro rfl
        exact nomatch hother [""] [(key, value)] (List.pairwise_singleton _ _) rfl
      · rintro rfl
        exact nomatch hother [] [(key, value)] (List.pairwise_singleton _ _) rfl
      · rintro front category category' hfront rfl hlt
        have hfield := hother front [(category, category'), (key, value)] (by simpa using hlt) (by
          rw [texts, orEmpty_of_ne_nil hfront, orEmpty_of_ne_nil (by simp), orEmpty_of_ne_nil (by simp)]
          simp)
        exact nomatch congrArg SignatureHasher.fields hfield

theorem preimage_binds_iff {h : SignatureHasher} (hplain : Plain h) :
    (∀ h', Plain h' → h.preimage = h'.preimage →
      (h = h' ↔ h.categoryStack.length = h'.categoryStack.length)) ∧
    ((∀ h', Plain h' → h.preimage = h'.preimage → h = h') ↔ Rigid h) := by
  constructor
  · intro h' hplain' hpreimage
    constructor
    · rintro rfl
      rfl
    · exact eq_of_texts ((preimage_eq_iff hplain hplain').mp hpreimage)
  · constructor
    · intro hbound
      apply rigid_of_unique hplain
      intro h' hplain' htexts
      exact (hbound h' hplain' ((preimage_eq_iff hplain hplain').mpr htexts.symm)).symm
    · intro hrigid h' hplain' hpreimage
      have htexts := ((preimage_eq_iff hplain hplain').mp hpreimage).symm
      obtain ⟨stack, fields⟩ := h
      obtain ⟨stack', fields'⟩ := h'
      rcases hrigid with ⟨category, hne, rfl, rfl⟩ | ⟨key, value, hvalue, rfl, hnil, hempty, hlast⟩
      · obtain ⟨rfl, rfl⟩ := eq_of_lone_category hne htexts
        rfl
      · obtain ⟨rfl, rfl⟩ := eq_of_lone_field hvalue hempty hlast hplain'.sorted (by
          rw [htexts, texts, orEmpty_of_ne_nil hnil]
          rfl)
        rfl

def codedPanic : SignatureHasher := ((new.pushCategory "panic").pushCategory "auth").addField "code" "7"

theorem codedPanic_plain : Plain codedPanic where
  sorted := insertField_sorted "code" "7" List.Pairwise.nil
  plain := by decide

theorem codedPanic_rigid : Rigid codedPanic := by
  refine Or.inr ⟨"code", "7", by decide, rfl, by decide, by decide, ?_⟩
  intro front category category' hfront hstack
  have hlength := congrArg List.length hstack
  rw [List.length_append] at hlength
  have hpositive := List.length_pos_of_ne_nil hfront
  change 2 = front.length + 2 at hlength
  omega

theorem preimage_binds_codedPanic :
    Rigid codedPanic ∧ ∀ h', Plain h' → codedPanic.preimage = h'.preimage → codedPanic = h' :=
  ⟨codedPanic_rigid, (preimage_binds_iff codedPanic_plain).2.mpr codedPanic_rigid⟩

theorem preimage_misses_section_border :
    ¬∀ h h' : SignatureHasher, Plain h → Plain h' → h.preimage = h'.preimage →
      h.categoryStack = h'.categoryStack ∧ h.fields = h'.fields := by
  -- the categories `a`, `b` and the category `a` with the empty field `b`
  intro hbinds
  let deep := (new.pushCategory "a").pushCategory "b"
  let flat := (new.pushCategory "a").addField "b" ""
  have hplain : Plain deep := ⟨List.Pairwise.nil, by decide⟩
  have hplain' : Plain flat := ⟨List.pairwise_singleton _ _, by decide⟩
  have hpreimage : deep.preimage = flat.preimage := by decide
  exact nomatch (hbinds _ _ hplain hplain' hpreimage).2

end SignatureHasher

end CrashLab.SignatureHash
