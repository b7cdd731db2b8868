import CrashLab.DiffTermination

namespace CrashLab.OpenApi

open JsStrings JsonTexts Relation

section Schemas

def refTarget (v spec : Value) : Option Value :=
  (refOf v).bind fun ref => if (resolveRef ref spec).isUndefined then none else some (resolveRef ref spec)

inductive Resolves (spec : Value) : Value → Value → Prop
  | done {v : Value} (h : refTarget v spec = none) : Resolves spec v v
  | follow {v target w : Value} (h : refTarget v spec = some target) (rest : Resolves spec target w) : Resolves spec v w

def fieldsOf (schema : Value) : Value := (schema.asJson.get (ofString "properties")).asJson

def requiredOf (schema : Value) : List Json := ((schema.asJson.get (ofString "required")).items).getD []

def itemsOf (schema : Value) : Value := schema.asJson.get (ofString "items")

def declaredType (schema : Value) : Value := schema.asJson.get (ofString "type")

def enumOf (schema : Value) : Value := schema.asJson.get (ofString "enum")

structure Keeps (base next : Value) : Prop where
  type : ∀ s t, declaredType base = .json s → declaredType next = .json t → s = t
  enum : ∀ baseValues nextValues, (enumOf base).items = some baseValues → (enumOf next).items = some nextValues →
    baseValues ⊆ nextValues
  field : ∀ key ∈ (fieldsOf base).keys, key ∈ (fieldsOf next).keys
  items : (itemsOf base).isObject = true → (itemsOf next).isUndefined = false
  required : ∀ key ∈ (fieldsOf base).keys, .string key ∈ requiredOf next → .string key ∈ requiredOf base

def Inherited (name : JsString) : Prop := name ∈ inheritedNames ∨ name = protoName

variable (baseSpec nextSpec : Value)

def KeptAt (p : Pair) : Prop :=
  ∀ base, Resolves baseSpec p.1 base → ∃ next, Resolves nextSpec p.2 next ∧ Keeps base next

inductive Walk : Pair → Pair → Prop
  | property {p : Pair} {base next : Value} {key : JsString} (hbase : Resolves baseSpec p.1 base)
      (hnext : Resolves nextSpec p.2 next) (hkey : key ∈ (fieldsOf base).keys) (hthere : key ∈ (fieldsOf next).keys) :
      Walk p ((fieldsOf base).get key, (fieldsOf next).get key)
  | items {p : Pair} {base next : Value} (hbase : Resolves baseSpec p.1 base) (hnext : Resolves nextSpec p.2 next)
      (hitems : (itemsOf base).isObject = true) (hthere : (itemsOf next).isUndefined = false) :
      Walk p (itemsOf base, itemsOf next)

def mediaSchema (response : Value) (media : JsString) : Value :=
  (((response.asJson.get (ofString "content")).asJson.get media).asJson).get (ofString "schema")

inductive ResponseStart (media : JsString) : Pair → Prop
  | intro {pathKey status : JsString} {method : JsString × JsString}
      (hpath : pathKey ∈ (baseSpec.get (ofString "paths")).asJson.keys) (hmethod : method ∈ httpMethods)
      (hbase : method.1 ∈ (operationsAt baseSpec pathKey).keys)
      (hnext : method.1 ∈ (operationsAt nextSpec pathKey).keys)
      (hstatus : status ∈ (responsesAt baseSpec pathKey method.1).keys)
      (hthere : status ∈ (responsesAt nextSpec pathKey method.1).keys)
      (hschema : (mediaSchema ((responsesAt baseSpec pathKey method.1).get status) media).isUndefined = false) :
      ResponseStart media (mediaSchema ((responsesAt baseSpec pathKey method.1).get status) media,
        mediaSchema ((responsesAt nextSpec pathKey method.1).get status) media)

inductive Place : Pair → Prop
  | response {media : JsString} {p : Pair} (h : ResponseStart baseSpec nextSpec media p) : Place p
  | component {name : JsString} (hname : name ∈ (schemas baseSpec).keys) (hthere : name ∈ (schemas nextSpec).keys) :
      Place ((schemas baseSpec).get name, (schemas nextSpec).get name)
  | walk {p q : Pair} (h : Place p) (hwalk : Walk baseSpec nextSpec p q) : Place q

def MethodsKept : Prop :=
  ∀ pathKey ∈ (baseSpec.get (ofString "paths")).asJson.keys, ∀ method ∈ httpMethods,
    method.1 ∈ (operationsAt baseSpec pathKey).keys → method.1 ∈ (operationsAt nextSpec pathKey).keys

/-- The response statuses and the components among `names` are still there. -/
structure NamesKept (names : JsString → Prop) : Prop where
  status : ∀ pathKey ∈ (baseSpec.get (ofString "paths")).asJson.keys, ∀ method ∈ httpMethods,
    method.1 ∈ (operationsAt baseSpec pathKey).keys → ∀ status ∈ (responsesAt baseSpec pathKey method.1).keys,
      names status → status ∈ (responsesAt nextSpec pathKey method.1).keys
  component : ∀ name ∈ (schemas baseSpec).keys, names name → name ∈ (schemas nextSpec).keys

structure GateSound : Prop where
  methods : MethodsKept baseSpec nextSpec
  names : NamesKept baseSpec nextSpec fun _ => True
  kept : ∀ p, Place baseSpec nextSpec p → KeptAt baseSpec nextSpec p

/-- Nothing hides a pair of schemas from the comparison: no second reference, no shared reference but to a component,
no union, no types other than texts, no field whose name every object inherits. -/
structure Plain (p : Pair) : Prop where
  base : refTarget (deref p.1 baseSpec) baseSpec = none
  next : refTarget (deref p.2 nextSpec) nextSpec = none
  shared : (refOf p.1).isSome = true → refOf p.1 = refOf p.2 →
    ∃ name ∈ (schemas baseSpec).keys, (schemas nextSpec).has name = true ∧
      deref p.1 baseSpec = (schemas baseSpec).get name ∧ deref p.2 nextSpec = (schemas nextSpec).get name ∧
      ¬((refOf (deref p.1 baseSpec)).isSome = true ∧ refOf (deref p.1 baseSpec) = refOf (deref p.2 nextSpec))
  single : isUnion (deref p.1 baseSpec) = false ∧ isUnion (deref p.2 nextSpec) = false
  types : ∀ s t, declaredType (deref p.1 baseSpec) = .json s → declaredType (deref p.2 nextSpec) = .json t →
    (∃ x y, s = .string x ∧ t = .string y) ∨ s = t
  fields : ∀ key ∈ (fieldsOf (deref p.1 baseSpec)).keys, Inherited key → key ∈ (fieldsOf (deref p.2 nextSpec)).keys

inductive Behind : Pair → Prop
  | media {media : JsString} {p : Pair} (hother : media ≠ ofString "application/json")
      (h : ResponseStart baseSpec nextSpec media p) : Behind p
  | here {p : Pair} (h : Place baseSpec nextSpec p) (hidden : ¬Plain baseSpec nextSpec p) : Behind p
  | walk {p q : Pair} (h : Behind p) (hwalk : Walk baseSpec nextSpec p q) : Behind q

end Schemas

section Findings

variable {baseSpec nextSpec : Value} {fuel : ℕ} {out out' : List SpecDiffFinding}

theorem addFinding_subset (out : List SpecDiffFinding) (finding : SpecDiffFinding) :
    out ⊆ addFinding out finding ∧ finding ∈ addFinding out finding := by
  unfold addFinding
  split_ifs with h
  · exact ⟨List.Subset.refl out, h⟩
  · exact ⟨List.subset_append_left out _, List.mem_append_right out (List.mem_singleton_self finding)⟩

theorem foldlM_runs (hkeeps : ∀ step out out', runStep baseSpec nextSpec fuel out step = some out' → out ⊆ out')
    {steps : List Step} (h : steps.foldlM (runStep baseSpec nextSpec fuel) out = some out') :
    out ⊆ out' ∧ ∀ step ∈ steps, ∃ before after,
      runStep baseSpec nextSpec fuel before step = some after ∧ after ⊆ out' := by
  induction steps generalizing out with
  | nil =>
    rw [List.foldlM_nil] at h
    obtain rfl := Option.some.inj h
    exact ⟨List.Subset.refl out, by simp⟩
  | cons step steps ih =>
    rw [List.foldlM_cons, Option.bind_eq_bind, Option.bind_eq_some_iff] at h
    obtain ⟨middle, hstep, hrest⟩ := h
    obtain ⟨hsubset, hothers⟩ := ih hrest
    refine ⟨List.Subset.trans (hkeeps step out middle hstep) hsubset, ?_⟩
    rw [List.forall_mem_cons]
    exact ⟨⟨out, middle, hstep, hsubset⟩, hothers⟩

theorem runStep_subset (fuel : ℕ) (step : Step) (out out' : List SpecDiffFinding)
    (h : runStep baseSpec nextSpec fuel out step = some out') : out ⊆ out' := by
  induction fuel generalizing step out out' with
  | zero =>
    cases step with
    | add kind message =>
      obtain rfl := Option.some.inj h
      exact (addFinding_subset out _).1
    | compare base next label => cases h
  | succ fuel ih =>
    cases step with
    | add kind message =>
      obtain rfl := Option.some.inj h
      exact (addFinding_subset out _).1
    | compare base next label =>
      rw [runStep, compareSchema_succ] at h
      exact (foldlM_runs ih h).1

theorem mem_of_run {steps : List Step} (h : steps.foldlM (runStep baseSpec nextSpec fuel) out = some out')
    {kind : Kind} {message : JsString} (hadd : .add kind message ∈ steps) : ⟨kind, message⟩ ∈ out' := by
  obtain ⟨before, after, hrun, hsubset⟩ := (foldlM_runs (runStep_subset fuel) h).2 _ hadd
  obtain rfl := Option.some.inj hrun
  exact hsubset (addFinding_subset before _).2

theorem compare_of_run {steps : List Step} (h : steps.foldlM (runStep baseSpec nextSpec fuel) out = some out')
    {p : Pair} (hp : p ∈ pairsOf steps) :
    ∃ label before after, compareSchema baseSpec nextSpec fuel p.1 p.2 label before = some after ∧ after ⊆ out' := by
  obtain ⟨step, hstep, hpair⟩ := List.mem_filterMap.mp hp
  cases step with
  | add kind message => cases hpair
  | compare base next label =>
    obtain rfl := Option.some.inj hpair
    obtain ⟨before, after, hrun, hsubset⟩ := (foldlM_runs (runStep_subset fuel) h).2 _ hstep
    exact ⟨label, before, after, hrun, hsubset⟩

theorem findings_of_leads {p q : Pair} (hlead : ReflTransGen (Leads baseSpec nextSpec) p q) {label : JsString}
    (h : compareSchema baseSpec nextSpec fuel p.1 p.2 label out = some out') :
    ∃ label', ∀ kind message, .add kind message ∈ schemaSteps baseSpec nextSpec q.1 q.2 label' →
      ⟨kind, message⟩ ∈ out' := by
  induction hlead using ReflTransGen.head_induction_on generalizing fuel label out out' with
  | refl =>
    cases fuel with
    | zero => cases h
    | succ fuel =>
      rw [compareSchema_succ] at h
      exact ⟨label, fun kind message hadd => mem_of_run h hadd⟩
  | head hfirst _ ih =>
    cases fuel with
    | zero => cases h
    | succ fuel =>
      rw [compareSchema_succ] at h
      obtain ⟨label', before, after, hrun, hsubset⟩ := compare_of_run h (mem_schemaSteps.mpr hfirst)
      obtain ⟨found, hfound⟩ := ih hrun
      exact ⟨found, fun kind message hadd => hsubset (hfound kind message hadd)⟩

end Findings

section Clean

variable {baseSpec nextSpec : Value} {p : Pair}

def Clean (baseSpec nextSpec : Value) (p : Pair) : Prop :=
  ∃ label, ∀ message, .add .breaking message ∉ schemaSteps baseSpec nextSpec p.1 p.2 label

def Compared (baseSpec nextSpec : Value) (p : Pair) : Prop :=
  ∃ root, Root baseSpec nextSpec root ∧ ReflTransGen (Leads baseSpec nextSpec) root p

theorem deref_eq (v spec : Value) : deref v spec = (refTarget v spec).getD v := by
  unfold deref refTarget
  cases refOf v with
  | none => rfl
  | some ref =>
    simp only [Option.bind_some]
    split_ifs <;> rfl

theorem deref_of_end {v spec : Value} (h : refTarget v spec = none) : deref v spec = v := by
  rw [deref_eq, h, Option.getD_none]

theorem resolves_deref {v spec : Value} (h : refTarget (deref v spec) spec = none) :
    Resolves spec v (deref v spec) := by
  cases htarget : refTarget v spec with
  | none =>
    rw [deref_of_end htarget]
    exact .done htarget
  | some target =>
    have heq : deref v spec = target := by rw [deref_eq, htarget, Option.getD_some]
    rw [heq] at h ⊢
    exact .follow htarget (.done h)

theorem Resolves.unique {spec v w w' : Value} (h : Resolves spec v w) (h' : Resolves spec v w') : w = w' := by
  induction h with
  | done hend =>
    cases h' with
    | done => rfl
    | follow hnext => rw [hend] at hnext; cases hnext
  | follow hnext _ ih =>
    cases h' with
    | done hend => rw [hnext] at hend; cases hend
    | follow hnext' hrest =>
      rw [hnext] at hnext'
      obtain rfl := Option.some.inj hnext'
      exact ih hrest

theorem isUndefined_deref {v : Value} (h : v.isUndefined = false) (spec : Value) :
    (deref v spec).isUndefined = false := by
  unfold deref
  cases refOf v with
  | none => exact h
  | some ref =>
    simp only
    split_ifs with htarget
    · exact h
    · simpa using htarget

theorem Clean.opens (clean : Clean baseSpec nextSpec p) (hbase : (deref p.1 baseSpec).isUndefined = false)
    (hnames : ¬((refOf p.1).isSome = true ∧ refOf p.1 = refOf p.2)) : Opens baseSpec nextSpec p := by
  obtain ⟨label, hclean⟩ := clean
  have hdiffer : ((refOf p.1).isSome && decide (refOf p.1 = refOf p.2)) = false := by
    rw [Bool.eq_false_iff]
    simpa using hnames
  have hnext : (deref p.2 nextSpec).isUndefined = false := by
    rw [← Bool.not_eq_true]
    intro hgone
    apply hclean (label ++ ofString ": schema removed")
    simp only [schemaSteps, hbase, hgone, Bool.false_and, Bool.false_eq_true, if_false, if_true]
    exact List.mem_singleton_self _
  refine ⟨hbase, hnext, hnames, ?_⟩
  rw [← Bool.not_eq_true]
  intro htypes
  apply hclean
  simp only [schemaSteps, hbase, hnext, hdiffer, htypes, Bool.false_and, Bool.false_eq_true, if_false, if_true]
  exact List.mem_singleton_self _

theorem Clean.there (clean : Clean baseSpec nextSpec p) (hbase : (deref p.1 baseSpec).isUndefined = false) :
    p.2.isUndefined = false := by
  by_cases hnames : (refOf p.1).isSome = true ∧ refOf p.1 = refOf p.2
  · cases hp : p.2 with
    | undefined =>
      rw [hp] at hnames
      rw [hnames.2] at hnames
      simp [refOf, Value.isObject] at hnames
    | _ => rfl
  · have hnext := (clean.opens hbase hnames).next
    cases hp : p.2 with
    | undefined =>
      rw [hp] at hnext
      simp [deref, refOf, Value.isObject, Value.isUndefined] at hnext
    | _ => rfl

theorem mem_addIf {condition : Bool} {kind : Kind} {message : JsString} {step : Step} :
    step ∈ addIf condition kind message ↔ condition = true ∧ step = .add kind message := by
  cases condition <;> simp [addIf]

theorem has_iff (v : Value) (key : JsString) : v.has key = true ↔ key ∈ v.keys ∨ Inherited key := by
  simp [Value.has, Inherited, or_assoc]

theorem enum_kept {base next : Value} {label : JsString} {baseValues nextValues : List Json}
    (hclean : ∀ message, .add .breaking message ∉ enumSteps base next label)
    (hbase : (base.get (ofString "enum")).items = some baseValues)
    (hnext : (next.get (ofString "enum")).items = some nextValues) : baseValues ⊆ nextValues := by
  intro value hvalue
  by_contra hgone
  have hremoved : value ∈ baseValues.filter (isMissing nextValues) := by
    refine List.mem_filter.mpr ⟨hvalue, ?_⟩
    rw [isMissing, decide_eq_true_iff, List.mem_map]
    rintro ⟨other, hother, heq⟩
    exact hgone (stringify_injective heq ▸ hother)
  apply hclean (label ++ ofString ": enum value(s) removed: " ++ listed (baseValues.filter (isMissing nextValues)))
  simp only [enumSteps, hbase, hnext, List.mem_append, mem_addIf, decide_eq_true_eq]
  exact Or.inl ⟨List.length_pos_of_mem hremoved, trivial⟩

theorem field_kept {base next : Value} {label key : JsString}
    (hclean : ∀ message, .add .breaking message ∉ fieldSteps base next label)
    (hkey : key ∈ (base.get (ofString "properties")).asJson.keys) :
    (next.get (ofString "properties")).asJson.has key = true := by
  by_contra hgone
  apply hclean (field label key ++ ofString ": field removed")
  rw [fieldSteps, if_pos (comparesFields_of_mem hkey)]
  apply List.mem_append_left
  apply List.mem_append_left
  refine List.mem_flatMap.mpr ⟨key, hkey, ?_⟩
  rw [if_neg hgone]
  exact List.mem_singleton_self _

theorem sameValue_string {key : JsString} {value : Json} (h : sameValue (.string key) value = true) :
    value = .string key := by
  cases value <;> simp_all [sameValue]

theorem required_kept {base next : Value} {label key : JsString}
    (hclean : ∀ message, .add .breaking message ∉ fieldSteps base next label)
    (hkey : key ∈ (base.get (ofString "properties")).asJson.keys)
    (hnext : .string key ∈ ((next.get (ofString "required")).items).getD []) :
    .string key ∈ ((base.get (ofString "required")).items).getD [] := by
  by_contra hopen
  apply hclean (field label key ++ ofString ": field became required")
  rw [fieldSteps, if_pos (comparesFields_of_mem hkey)]
  apply List.mem_append_right
  apply List.mem_append_right
  refine List.mem_flatMap.mpr ⟨.string key, hnext, mem_addIf.mpr ⟨?_, rfl⟩⟩
  have hunknown : (((base.get (ofString "required")).items).getD []).any (sameValue (.string key)) = false := by
    rw [List.any_eq_false]
    intro value hvalue hsame
    exact hopen (sameValue_string hsame ▸ hvalue)
  have hhas : (base.get (ofString "properties")).asJson.has (nameText (.string key)) = true :=
    (has_iff _ _).mpr (Or.inl hkey)
  rw [hunknown, hhas]
  rfl

theorem Clean.keeps (clean : Clean baseSpec nextSpec p) (opens : Opens baseSpec nextSpec p)
    (single : isUnion (deref p.1 baseSpec) = false ∧ isUnion (deref p.2 nextSpec) = false)
    (types : ∀ s t, declaredType (deref p.1 baseSpec) = .json s → declaredType (deref p.2 nextSpec) = .json t →
      (∃ x y, s = .string x ∧ t = .string y) ∨ s = t)
    (fields : ∀ key ∈ (fieldsOf (deref p.1 baseSpec)).keys, Inherited key →
      key ∈ (fieldsOf (deref p.2 nextSpec)).keys)
    (items : (itemsOf (deref p.1 baseSpec)).isObject = true → (itemsOf (deref p.2 nextSpec)).isUndefined = false) :
    Keeps (deref p.1 baseSpec) (deref p.2 nextSpec) := by
  obtain ⟨label, hclean⟩ := clean
  rw [schemaSteps_of_opens opens, single.1, single.2, if_neg (by simp)] at hclean
  simp only [List.mem_append, not_or] at hclean
  refine ⟨?_, ?_, ?_, items, ?_⟩
  · intro s t hs ht
    rcases types s t hs ht with ⟨x, y, rfl, rfl⟩ | heq
    · have hsame := opens.types
      rw [declaredType] at hs ht
      rw [hs, ht] at hsame
      rw [show x = y by simpa [typesDiffer, Value.text] using hsame]
    · exact heq
  · exact fun baseValues nextValues => enum_kept fun message => (hclean message).1
  · intro key hkey
    rcases (has_iff _ _).mp (field_kept (fun message => (hclean message).2.2) hkey) with hthere | hinherited
    · exact hthere
    · exact fields key hkey hinherited
  · exact fun key => required_kept fun message => (hclean message).2.2

end Clean

section Gate

variable {baseSpec nextSpec : Value} {p q : Pair}

structure Passed (baseSpec nextSpec : Value) : Prop where
  steps : ∀ message, .add .breaking message ∉ specSteps baseSpec nextSpec
  clean : ∀ p, Compared baseSpec nextSpec p → Clean baseSpec nextSpec p

theorem passed_of_diff {before : JsString → JsString → Bool} {fuel : ℕ} {base next : Json} {diff : SpecDiff}
    (h : diffOpenApiSpecs before fuel base next = some diff) (hgate : diff.hasBreaking = false) :
    Passed (Value.json base).asJson (Value.json next).asJson := by
  rw [diffOpenApiSpecs, Option.bind_eq_bind, Option.bind_eq_some_iff] at h
  obtain ⟨findings, hrun, hdiff⟩ := h
  obtain rfl := Option.some.inj hdiff
  have hnone : ∀ message, ⟨.breaking, message⟩ ∉ findings := by
    intro message hmem
    have hsorted : (findings.filter (·.kind = .breaking)).length = 0 := by simpa using hgate
    have hin : (⟨.breaking, message⟩ : SpecDiffFinding) ∈ findings.filter (·.kind = .breaking) :=
      List.mem_filter.mpr ⟨hmem, by simp⟩
    rw [List.length_eq_zero_iff.mp hsorted] at hin
    exact List.not_mem_nil hin
  constructor
  · intro message hadd
    exact hnone message (mem_of_run hrun hadd)
  · rintro p ⟨root, hroot, hlead⟩
    obtain ⟨label, start, after, hcompare, hsubset⟩ := compare_of_run hrun (mem_specSteps.mpr hroot)
    obtain ⟨label', hfound⟩ := findings_of_leads hlead hcompare
    exact ⟨label', fun message hadd => hnone message (hsubset (hfound .breaking message hadd))⟩

theorem Compared.leads (h : Compared baseSpec nextSpec p) (hlead : Leads baseSpec nextSpec p q) :
    Compared baseSpec nextSpec q := by
  obtain ⟨root, hroot, hreach⟩ := h
  exact ⟨root, hroot, hreach.tail hlead⟩

theorem Passed.opened (passed : Passed baseSpec nextSpec) (plain : Plain baseSpec nextSpec p)
    (compared : Compared baseSpec nextSpec p) (hthere : p.1.isUndefined = false) :
    ∃ s, Compared baseSpec nextSpec s ∧ Opens baseSpec nextSpec s ∧ deref s.1 baseSpec = deref p.1 baseSpec ∧
      deref s.2 nextSpec = deref p.2 nextSpec := by
  have hbase := isUndefined_deref hthere baseSpec
  by_cases hnames : (refOf p.1).isSome = true ∧ refOf p.1 = refOf p.2
  · obtain ⟨name, hname, hhas, hcomponent, hcomponent', hapart⟩ := plain.shared hnames.1 hnames.2
    have hroot : Root baseSpec nextSpec (deref p.1 baseSpec, deref p.2 nextSpec) := by
      rw [hcomponent, hcomponent']
      exact .component hname hhas
    have hself := deref_of_end plain.base
    have hcompared : Compared baseSpec nextSpec (deref p.1 baseSpec, deref p.2 nextSpec) := ⟨_, hroot, .refl⟩
    refine ⟨_, hcompared, (passed.clean _ hcompared).opens ?_ hapart, hself, deref_of_end plain.next⟩
    rw [hself]
    exact hbase
  · exact ⟨p, compared, (passed.clean p compared).opens hbase hnames, rfl, rfl⟩

theorem isUndefined_get {v : Value} {key : JsString} (h : key ∈ v.keys) : (v.get key).isUndefined = false := by
  obtain ⟨member, hmember, rfl⟩ := List.mem_map.mp h
  have hfound : ((v.members.reverse.find? fun other => other.1 = member.1).map Prod.snd).isSome = true := by
    rw [Option.isSome_map, List.find?_isSome]
    exact ⟨member, List.mem_reverse.mpr hmember, by simp⟩
  obtain ⟨value, hvalue⟩ := Option.isSome_iff_exists.mp hfound
  have hget : Json.get member.1 (.object v.members) = some value := hvalue
  simp only [Value.get, hget, Value.isUndefined]

theorem isUndefined_of_isObject {v : Value} (h : v.isObject = true) : v.isUndefined = false := by
  cases v <;> simp_all [Value.isObject, Value.isUndefined]

theorem Passed.kept (passed : Passed baseSpec nextSpec) (plain : Plain baseSpec nextSpec p)
    (compared : Compared baseSpec nextSpec p) (hthere : p.1.isUndefined = false) :
    KeptAt baseSpec nextSpec p ∧ ∀ q, Walk baseSpec nextSpec p q → Compared baseSpec nextSpec q := by
  obtain ⟨s, hcompared, hopens, hbase, hnext⟩ := passed.opened plain compared hthere
  have hsingle := plain.single
  rw [← hbase, ← hnext] at hsingle
  have hitems : (itemsOf (deref p.1 baseSpec)).isObject = true →
      Compared baseSpec nextSpec (itemsOf (deref p.1 baseSpec), itemsOf (deref p.2 nextSpec)) := by
    intro hobject
    apply hcompared.leads
    rw [← hbase, ← hnext]
    rw [← hbase] at hobject
    rw [itemsOf] at hobject
    exact .items hopens hsingle (by simp [hobject])
  have hproperty : ∀ key ∈ (fieldsOf (deref p.1 baseSpec)).keys, (fieldsOf (deref p.2 nextSpec)).has key = true →
      Compared baseSpec nextSpec ((fieldsOf (deref p.1 baseSpec)).get key, (fieldsOf (deref p.2 nextSpec)).get key) := by
    intro key hkey hhas
    apply hcompared.leads
    rw [← hbase, ← hnext]
    rw [← hbase] at hkey
    rw [← hnext] at hhas
    exact .property hopens hsingle hkey hhas
  have hitemsThere : (itemsOf (deref p.1 baseSpec)).isObject = true →
      (itemsOf (deref p.2 nextSpec)).isUndefined = false := by
    intro hobject
    exact (passed.clean _ (hitems hobject)).there (isUndefined_deref (isUndefined_of_isObject hobject) baseSpec)
  have hkeeps : Keeps (deref p.1 baseSpec) (deref p.2 nextSpec) := by
    rw [← hbase, ← hnext]
    rw [← hbase, ← hnext] at hitemsThere
    apply (passed.clean s hcompared).keeps hopens hsingle _ _ hitemsThere
    · rw [hbase, hnext]
      exact plain.types
    · rw [hbase, hnext]
      exact plain.fields
  refine ⟨fun base hresolves => ?_, fun q hwalk => ?_⟩
  · rw [hresolves.unique (resolves_deref plain.base)]
    exact ⟨_, resolves_deref plain.next, hkeeps⟩
  · cases hwalk with
    | property hb hn hkey hin =>
      obtain rfl := hb.unique (resolves_deref plain.base)
      obtain rfl := hn.unique (resolves_deref plain.next)
      exact hproperty _ hkey ((has_iff _ _).mpr (Or.inl hin))
    | items hb hn hobject hin =>
      obtain rfl := hb.unique (resolves_deref plain.base)
      obtain rfl := hn.unique (resolves_deref plain.next)
      exact hitems hobject

theorem Place.there (h : Place baseSpec nextSpec p) : p.1.isUndefined = false := by
  induction h with
  | response h =>
    cases h with
    | intro _ _ _ _ _ _ hschema =>
      dsimp only
      exact hschema
  | component hname =>
    dsimp only
    exact isUndefined_get hname
  | walk _ hwalk =>
    cases hwalk with
    | property _ _ hkey =>
      dsimp only
      exact isUndefined_get hkey
    | items _ _ hitems =>
      dsimp only
      exact isUndefined_of_isObject hitems

theorem Behind.place (h : Behind baseSpec nextSpec p) : Place baseSpec nextSpec p := by
  induction h with
  | media _ h => exact .response h
  | here h => exact h
  | walk _ hwalk ih => exact .walk ih hwalk

theorem Passed.compared (passed : Passed baseSpec nextSpec) (h : Place baseSpec nextSpec p) :
    Behind baseSpec nextSpec p ∨ Compared baseSpec nextSpec p := by
  induction h with
  | @response media p h =>
    by_cases hmedia : media = ofString "application/json"
    · subst hmedia
      cases h with
      | intro hpath hmethod hbase hnext hstatus hthere =>
        have hroot := Root.response hpath hmethod ((has_iff _ _).mpr (Or.inl hbase))
          ((has_iff _ _).mpr (Or.inl hnext)) hstatus ((has_iff _ _).mpr (Or.inl hthere))
        exact Or.inr ⟨_, hroot, .refl⟩
    · exact Or.inl (.media hmedia h)
  | component hname hthere =>
    exact Or.inr ⟨_, .component hname ((has_iff _ _).mpr (Or.inl hthere)), .refl⟩
  | @walk p q h hwalk ih =>
    rcases ih with hbehind | hcompared
    · exact Or.inl (.walk hbehind hwalk)
    · by_cases plain : Plain baseSpec nextSpec p
      · exact Or.inr ((passed.kept plain hcompared h.there).2 q hwalk)
      · exact Or.inl (.walk (.here h plain) hwalk)

theorem httpMethods_own : ∀ method ∈ httpMethods, ¬Inherited method.1 := by
  unfold Inherited
  decide +kernel

theorem Passed.methods (passed : Passed baseSpec nextSpec) : MethodsKept baseSpec nextSpec := by
  intro pathKey hpath method hmethod hbase
  have hhas : (operationsAt nextSpec pathKey).has method.1 = true := by
    by_contra hgone
    apply passed.steps (routeName method.2 pathKey ++ ofString ": route removed")
    apply List.mem_append_left
    apply List.mem_append_left
    refine List.mem_flatMap.mpr ⟨pathKey, hpath, List.mem_flatMap.mpr ⟨method, hmethod, ?_⟩⟩
    have hbase' := (has_iff _ _).mpr (Or.inl hbase)
    rw [operationsAt] at hbase' hgone
    rw [Bool.not_eq_true] at hgone
    simp only [hbase', hgone, Bool.not_true, Bool.not_false, Bool.false_eq_true, if_false, if_true]
    exact List.mem_singleton_self _
  rcases (has_iff _ _).mp hhas with hthere | hinherited
  · exact hthere
  · exact absurd hinherited (httpMethods_own method hmethod)

theorem Passed.names (passed : Passed baseSpec nextSpec) (inherited : NamesKept baseSpec nextSpec Inherited) :
    NamesKept baseSpec nextSpec fun _ => True := by
  constructor
  · intro pathKey hpath method hmethod hbase status hstatus _
    have hnext := passed.methods pathKey hpath method hmethod hbase
    have hhas : (responsesAt nextSpec pathKey method.1).has status = true := by
      by_contra hgone
      apply passed.steps (routeName method.2 pathKey ++ ofString ": response " ++ status ++ ofString " removed")
      apply List.mem_append_left
      apply List.mem_append_left
      refine List.mem_flatMap.mpr ⟨pathKey, hpath, List.mem_flatMap.mpr ⟨method, hmethod, ?_⟩⟩
      have hbase' := (has_iff _ _).mpr (Or.inl hbase)
      have hnext' := (has_iff _ _).mpr (Or.inl hnext)
      rw [operationsAt] at hbase' hnext'
      simp only [hbase', hnext', Bool.not_true, Bool.false_eq_true, if_false]
      apply List.mem_append_left
      refine List.mem_flatMap.mpr ⟨status, hstatus, ?_⟩
      rw [responsesAt, operationsAt] at hgone
      rw [if_neg hgone]
      exact List.mem_singleton_self _
    exact ((has_iff _ _).mp hhas).elim id (inherited.status pathKey hpath method hmethod hbase status hstatus)
  · intro name hname _
    have hhas : (schemas nextSpec).has name = true := by
      by_contra hgone
      apply passed.steps (schemaName name ++ ofString ": schema removed")
      apply List.mem_append_right
      apply List.mem_append_left
      refine List.mem_flatMap.mpr ⟨name, hname, ?_⟩
      rw [if_neg hgone]
      exact List.mem_singleton_self _
    exact ((has_iff _ _).mp hhas).elim id (inherited.component name hname)

theorem gate_sound_iff (before : JsString → JsString → Bool) (fuel : ℕ) (base next : Json) (diff : SpecDiff)
    (h : diffOpenApiSpecs before fuel base next = some diff) (hgate : diff.hasBreaking = false) :
    GateSound (Value.json base).asJson (Value.json next).asJson ↔
      NamesKept (Value.json base).asJson (Value.json next).asJson Inherited ∧
        ∀ p, Behind (Value.json base).asJson (Value.json next).asJson p →
          KeptAt (Value.json base).asJson (Value.json next).asJson p := by
  have passed := passed_of_diff h hgate
  constructor
  · intro sound
    refine ⟨⟨?_, ?_⟩, fun p hp => sound.kept p hp.place⟩
    · exact fun pathKey hpath method hmethod hbase status hstatus _ =>
        sound.names.status pathKey hpath method hmethod hbase status hstatus trivial
    · exact fun name hname _ => sound.names.component name hname trivial
  · rintro ⟨inherited, hidden⟩
    refine ⟨passed.methods, passed.names inherited, fun p hp => ?_⟩
    rcases passed.compared hp with hbehind | hcompared
    · exact hidden p hbehind
    · by_cases plain : Plain (Value.json base).asJson (Value.json next).asJson p
      · exact (passed.kept plain hcompared hp.there).1
      · exact hidden p (.here hp plain)

end Gate

section Samples

def typed (name : String) : Json := objectOf [("type", .string (ofString name))]

def chainBase : Json :=
  documentOf [("A", linkTo "B"), ("B", referenceTo "C"), ("C", typed "string")]

def chainNext : Json :=
  documentOf [("A", linkTo "E"), ("B", referenceTo "C"), ("C", typed "string"), ("D", typed "integer"),
    ("E", referenceTo "D")]

theorem diff_of_run {before : JsString → JsString → Bool} {fuel : ℕ} {base next : Json}
    {findings : List SpecDiffFinding}
    (hrun : (specSteps (Value.json base).asJson (Value.json next).asJson).foldlM
      (runStep (Value.json base).asJson (Value.json next).asJson fuel) [] = some findings)
    (hadditive : ∀ finding ∈ findings, finding.kind = .additive) :
    diffOpenApiSpecs before fuel base next =
      some ⟨[], findings.mergeSort fun a b => before a.message b.message, false⟩ := by
  have hbreaking : findings.filter (·.kind = .breaking) = [] := by
    rw [List.filter_eq_nil_iff]
    intro finding hfinding
    simp [hadditive finding hfinding]
  have hall : findings.filter (·.kind = .additive) = findings := by
    rw [List.filter_eq_self]
    intro finding hfinding
    simp [hadditive finding hfinding]
  rw [diffOpenApiSpecs, hrun]
  simp only [Option.bind_eq_bind, Option.bind_some, hbreaking, hall, List.mergeSort_nil, List.length_nil,
    lt_irrefl, decide_false]
  rfl

theorem second_reference_hides_type :
    ¬∀ (before : JsString → JsString → Bool) (fuel : ℕ) (base next : Json) (diff : SpecDiff),
      diffOpenApiSpecs before fuel base next = some diff → diff.hasBreaking = false →
        GateSound (Value.json base).asJson (Value.json next).asJson := by
  intro hall
  have hdiff := @diff_of_run (fun _ _ => true) 3 chainBase chainNext
    [⟨.additive, ofString "components.schemas.D: schema added"⟩,
      ⟨.additive, ofString "components.schemas.E: schema added"⟩] rfl (by simp)
  have sound := hall _ _ _ _ _ hdiff rfl
  have hcomponent : Place (.json chainBase) (.json chainNext) (.json (linkTo "B"), .json (linkTo "E")) :=
    @Place.component (.json chainBase) (.json chainNext) (ofString "A") (by decide +kernel) (by decide +kernel)
  have hplace : Place (.json chainBase) (.json chainNext) (.json (referenceTo "B"), .json (referenceTo "E")) :=
    .walk hcomponent (@Walk.property (.json chainBase) (.json chainNext) _ _ _ (ofString "x") (.done rfl) (.done rfl)
      (by decide +kernel) (by decide +kernel))
  have htext : Resolves (.json chainBase) (.json (referenceTo "B")) (.json (typed "string")) :=
    .follow rfl (.follow rfl (.done rfl))
  have hnumber : Resolves (.json chainNext) (.json (referenceTo "E")) (.json (typed "integer")) :=
    .follow rfl (.follow rfl (.done rfl))
  obtain ⟨next, hresolves, hkeeps⟩ := sound.kept _ hplace _ htext
  obtain rfl := hresolves.unique hnumber
  have hsame := hkeeps.type (.string (ofString "string")) (.string (ofString "integer")) rfl rfl
  exact absurd (ofString_injective (Json.string.inj hsame)) (by decide)

theorem recursive_document_sound :
    GateSound (.json recursiveBase) (.json recursiveBase) ↔
      NamesKept (.json recursiveBase) (.json recursiveBase) Inherited ∧
        ∀ p, Behind (.json recursiveBase) (.json recursiveBase) p →
          KeptAt (.json recursiveBase) (.json recursiveBase) p :=
  gate_sound_iff (fun _ _ => true) 2 recursiveBase recursiveBase _
    (@diff_of_run (fun _ _ => true) 2 recursiveBase recursiveBase [] rfl (by simp)) rfl

end Samples

end CrashLab.OpenApi
