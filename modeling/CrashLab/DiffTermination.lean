import CrashLab.Recursions
import CrashLab.SpecDiff

namespace CrashLab.OpenApi

open JsStrings JsonTexts Recursions Relation

abbrev Pair := Value × Value

def Step.pair : Step → Option Pair
  | .add _ _ => none
  | .compare base next _ => some (base, next)

def pairsOf (steps : List Step) : List Pair := steps.filterMap Step.pair

section Pairs

@[simp] theorem pairsOf_nil : pairsOf [] = [] := rfl

@[simp] theorem pairsOf_append (steps more : List Step) : pairsOf (steps ++ more) = pairsOf steps ++ pairsOf more :=
  List.filterMap_append

@[simp] theorem pairsOf_add (kind : Kind) (message : JsString) (steps : List Step) :
    pairsOf (.add kind message :: steps) = pairsOf steps := rfl

@[simp] theorem pairsOf_compare (base next : Value) (label : JsString) (steps : List Step) :
    pairsOf (.compare base next label :: steps) = (base, next) :: pairsOf steps := rfl

@[simp] theorem pairsOf_addIf (condition : Bool) (kind : Kind) (message : JsString) :
    pairsOf (addIf condition kind message) = [] := by
  cases condition <;> rfl

theorem mem_pairsOf_flatMap {α : Type*} {p : Pair} {l : List α} {f : α → List Step} :
    p ∈ pairsOf (l.flatMap f) ↔ ∃ a ∈ l, p ∈ pairsOf (f a) := by
  simp only [pairsOf, List.mem_filterMap, List.mem_flatMap]
  constructor
  · rintro ⟨step, ⟨a, ha, hstep⟩, hp⟩
    exact ⟨a, ha, step, hstep, hp⟩
  · rintro ⟨a, ha, step, hstep, hp⟩
    exact ⟨step, ⟨a, ha, hstep⟩, hp⟩

theorem pairsOf_flatMap_addIf {α : Type*} (l : List α) (condition : α → Bool) (kind : Kind)
    (message : α → JsString) : pairsOf (l.flatMap fun a => addIf (condition a) kind (message a)) = [] := by
  apply List.eq_nil_iff_forall_not_mem.mpr
  intro p hp
  obtain ⟨a, -, ha⟩ := mem_pairsOf_flatMap.mp hp
  rw [pairsOf_addIf] at ha
  exact List.not_mem_nil ha

end Pairs

section Comparisons

variable (baseSpec nextSpec : Value)

structure Opens (p : Pair) : Prop where
  base : (deref p.1 baseSpec).isUndefined = false
  next : (deref p.2 nextSpec).isUndefined = false
  names : ¬((refOf p.1).isSome = true ∧ refOf p.1 = refOf p.2)
  types : typesDiffer ((deref p.1 baseSpec).asJson.get (ofString "type"))
    ((deref p.2 nextSpec).asJson.get (ofString "type")) = false

inductive Leads : Pair → Pair → Prop
  | variant {p : Pair} {v candidate : Value} (opens : Opens baseSpec nextSpec p)
      (union : isUnion (deref p.1 baseSpec) = true ∨ isUnion (deref p.2 nextSpec) = true)
      (hv : v ∈ variants (deref p.1 baseSpec)) (hmatch : matchOf (variants (deref p.2 nextSpec)) v = some candidate)
      (hthere : candidate.isUndefined = false) : Leads p (v, candidate)
  | items {p : Pair} (opens : Opens baseSpec nextSpec p)
      (single : isUnion (deref p.1 baseSpec) = false ∧ isUnion (deref p.2 nextSpec) = false)
      (hitems : let items := (deref p.1 baseSpec).asJson.get (ofString "items")
        (items.items.isSome || items.isObject) = true) :
      Leads p ((deref p.1 baseSpec).asJson.get (ofString "items"), (deref p.2 nextSpec).asJson.get (ofString "items"))
  | property {p : Pair} {key : JsString} (opens : Opens baseSpec nextSpec p)
      (single : isUnion (deref p.1 baseSpec) = false ∧ isUnion (deref p.2 nextSpec) = false)
      (hkey : key ∈ ((deref p.1 baseSpec).asJson.get (ofString "properties")).asJson.keys)
      (hthere : ((deref p.2 nextSpec).asJson.get (ofString "properties")).asJson.has key = true) :
      Leads p (((deref p.1 baseSpec).asJson.get (ofString "properties")).asJson.get key,
        ((deref p.2 nextSpec).asJson.get (ofString "properties")).asJson.get key)

end Comparisons

theorem mem_unionSteps {baseResolved nextResolved : Value} {label : JsString} {p : Pair} :
    p ∈ pairsOf (unionSteps baseResolved nextResolved label) ↔
      p.1 ∈ variants baseResolved ∧ matchOf (variants nextResolved) p.1 = some p.2 ∧ p.2.isUndefined = false := by
  simp only [unionSteps, pairsOf_append, pairsOf_addIf, List.nil_append, mem_pairsOf_flatMap]
  constructor
  · rintro ⟨v, hv, hp⟩
    cases hmatch : matchOf (variants nextResolved) v with
    | none => simp [hmatch] at hp
    | some candidate =>
      simp only [hmatch] at hp
      cases hthere : candidate.isUndefined with
      | true => simp [hthere] at hp
      | false =>
        simp only [hthere, Bool.false_eq_true, if_false, pairsOf_compare, pairsOf_nil, List.mem_singleton] at hp
        subst hp
        exact ⟨hv, hmatch, hthere⟩
  · rintro ⟨hv, hmatch, hthere⟩
    exact ⟨p.1, hv, by simp [hmatch, hthere]⟩

theorem mem_itemSteps {base next : Value} {label : JsString} {p : Pair} :
    p ∈ pairsOf (itemSteps base next label) ↔
      (((base.get (ofString "items")).items.isSome || (base.get (ofString "items")).isObject) = true ∧
        p = (base.get (ofString "items"), next.get (ofString "items"))) := by
  simp only [itemSteps]
  split_ifs with h
  · simp [h]
  · simp [h]

theorem pairsOf_requiredSteps (base next baseProps : Value) (label : JsString) :
    pairsOf (requiredSteps base next baseProps label) = [] := by
  simp only [requiredSteps, pairsOf_append, pairsOf_flatMap_addIf, List.append_nil]

theorem comparesFields_of_mem {base next : Value} {key : JsString}
    (h : key ∈ (base.get (ofString "properties")).asJson.keys) : comparesFields base next = true := by
  have htruthy : (base.get (ofString "properties")).truthy = true := by
    cases hprops : base.get (ofString "properties") with
    | json j => cases j <;> simp_all [Value.asJson, Value.isObject, Value.keys, Value.members, Value.truthy]
    | _ => simp_all [Value.asJson, Value.isObject, Value.keys, Value.members]
  simp [comparesFields, htruthy]

theorem mem_fieldSteps {base next : Value} {label : JsString} {p : Pair} :
    p ∈ pairsOf (fieldSteps base next label) ↔
      ∃ key ∈ (base.get (ofString "properties")).asJson.keys,
        (next.get (ofString "properties")).asJson.has key = true ∧
          p = ((base.get (ofString "properties")).asJson.get key, (next.get (ofString "properties")).asJson.get key) := by
  unfold fieldSteps
  by_cases hfields : comparesFields base next = true
  · simp only [hfields, if_true, pairsOf_append, pairsOf_flatMap_addIf, pairsOf_requiredSteps, List.append_nil,
      mem_pairsOf_flatMap]
    apply exists_congr
    intro key
    apply and_congr_right
    intro _
    split_ifs with hthere <;> simp [hthere]
  · rw [if_neg hfields]
    refine ⟨fun hp => absurd hp List.not_mem_nil, ?_⟩
    rintro ⟨key, hkey, -⟩
    exact absurd (comparesFields_of_mem hkey) hfields

theorem pairsOf_enumSteps (base next : Value) (label : JsString) : pairsOf (enumSteps base next label) = [] := by
  unfold enumSteps
  split <;> simp

theorem leads_iff {baseSpec nextSpec : Value} {p q : Pair} :
    Leads baseSpec nextSpec p q ↔ Opens baseSpec nextSpec p ∧
      if isUnion (deref p.1 baseSpec) || isUnion (deref p.2 nextSpec) then
        q ∈ pairsOf (unionSteps (deref p.1 baseSpec) (deref p.2 nextSpec) [])
      else
        q ∈ pairsOf (itemSteps (deref p.1 baseSpec).asJson (deref p.2 nextSpec).asJson []) ∨
          q ∈ pairsOf (fieldSteps (deref p.1 baseSpec).asJson (deref p.2 nextSpec).asJson []) := by
  constructor
  · intro h
    cases h with
    | variant opens union hv hmatch hthere =>
      rw [if_pos (by simpa using union), mem_unionSteps]
      exact ⟨opens, hv, hmatch, hthere⟩
    | items opens single hitems =>
      rw [if_neg (by simpa using single), mem_itemSteps]
      exact ⟨opens, Or.inl ⟨hitems, rfl⟩⟩
    | property opens single hkey hthere =>
      rw [if_neg (by simpa using single), mem_fieldSteps]
      exact ⟨opens, Or.inr ⟨_, hkey, hthere, rfl⟩⟩
  · rintro ⟨opens, h⟩
    split_ifs at h with hunion
    · rw [mem_unionSteps] at h
      exact .variant opens (by simpa using hunion) h.1 h.2.1 h.2.2
    · have hsingle : isUnion (deref p.1 baseSpec) = false ∧ isUnion (deref p.2 nextSpec) = false := by
        simpa using hunion
      rw [mem_itemSteps, mem_fieldSteps] at h
      rcases h with ⟨hitems, rfl⟩ | ⟨key, hkey, hthere, rfl⟩
      · exact .items opens hsingle hitems
      · exact .property opens hsingle hkey hthere

theorem schemaSteps_of_opens {baseSpec nextSpec : Value} {p : Pair} (opens : Opens baseSpec nextSpec p)
    (label : JsString) :
    schemaSteps baseSpec nextSpec p.1 p.2 label =
      enumSteps (deref p.1 baseSpec).asJson (deref p.2 nextSpec).asJson label ++
        if isUnion (deref p.1 baseSpec) || isUnion (deref p.2 nextSpec) then
          unionSteps (deref p.1 baseSpec) (deref p.2 nextSpec) label
        else
          itemSteps (deref p.1 baseSpec).asJson (deref p.2 nextSpec).asJson label ++
            fieldSteps (deref p.1 baseSpec).asJson (deref p.2 nextSpec).asJson label := by
  have hnames : ((refOf p.1).isSome && decide (refOf p.1 = refOf p.2)) = false := by
    rw [Bool.eq_false_iff]
    simpa using opens.names
  simp only [schemaSteps, opens.base, opens.next, hnames, opens.types, Bool.false_and, Bool.false_eq_true, if_false]

theorem pairsOf_schemaSteps_of_closed {baseSpec nextSpec : Value} {p : Pair} (closed : ¬Opens baseSpec nextSpec p)
    (label : JsString) : pairsOf (schemaSteps baseSpec nextSpec p.1 p.2 label) = [] := by
  simp only [schemaSteps]
  by_cases hbase : (deref p.1 baseSpec).isUndefined = true
  · cases hnext : (deref p.2 nextSpec).isUndefined <;> simp [hbase]
  · by_cases hnext : (deref p.2 nextSpec).isUndefined = true
    · simp [hbase, hnext]
    · by_cases hnames : (refOf p.1).isSome = true ∧ refOf p.1 = refOf p.2
      · have hsame : ((refOf p.1).isSome && decide (refOf p.1 = refOf p.2)) = true := by simpa using hnames
        simp only [Bool.not_eq_true] at hbase hnext
        simp only [hbase, hnext, hsame, Bool.and_self, Bool.false_eq_true, if_false, if_true, pairsOf_nil]
      · by_cases htypes : typesDiffer ((deref p.1 baseSpec).asJson.get (ofString "type"))
            ((deref p.2 nextSpec).asJson.get (ofString "type")) = true
        · simp [hbase, hnext, hnames, htypes]
        · exact absurd ⟨by simpa using hbase, by simpa using hnext, hnames, by simpa using htypes⟩ closed

theorem mem_schemaSteps {baseSpec nextSpec : Value} {label : JsString} {p q : Pair} :
    q ∈ pairsOf (schemaSteps baseSpec nextSpec p.1 p.2 label) ↔ Leads baseSpec nextSpec p q := by
  rw [leads_iff]
  by_cases opens : Opens baseSpec nextSpec p
  · rw [schemaSteps_of_opens opens, pairsOf_append, pairsOf_enumSteps, List.nil_append]
    split_ifs with hunion
    · simp [opens, mem_unionSteps]
    · simp [opens, mem_itemSteps, mem_fieldSteps]
  · simp [pairsOf_schemaSteps_of_closed opens, opens]

section Fuel

variable (baseSpec nextSpec : Value)

def calls (p : Pair) : List Pair := pairsOf (schemaSteps baseSpec nextSpec p.1 p.2 [])

theorem compareSchema_succ (fuel : ℕ) (base next : Value) (label : JsString) (out : List SpecDiffFinding) :
    compareSchema baseSpec nextSpec (fuel + 1) base next label out =
      (schemaSteps baseSpec nextSpec base next label).foldlM (runStep baseSpec nextSpec fuel) out := by
  rw [compareSchema]
  congr 1

theorem foldlM_isSome {fuel : ℕ} {P : Pair → Prop} (steps : List Step) (out : List SpecDiffFinding)
    (h : ∀ p label out, (compareSchema baseSpec nextSpec fuel p.1 p.2 label out).isSome = true ↔ P p) :
    (steps.foldlM (runStep baseSpec nextSpec fuel) out).isSome = true ↔ ∀ p ∈ pairsOf steps, P p := by
  induction steps generalizing out with
  | nil => simp
  | cons step steps ih =>
    cases step with
    | add kind message =>
      rw [List.foldlM_cons, pairsOf_add]
      exact ih _
    | compare base next label =>
      rw [List.foldlM_cons, pairsOf_compare, List.forall_mem_cons, ← h (base, next) label out, runStep]
      cases compareSchema baseSpec nextSpec fuel base next label out with
      | none => simp
      | some out => simpa using ih out

theorem compareSchema_isSome (fuel : ℕ) (p : Pair) (label : JsString) (out : List SpecDiffFinding) :
    (compareSchema baseSpec nextSpec fuel p.1 p.2 label out).isSome = true ↔
      Within (calls baseSpec nextSpec) fuel p := by
  induction fuel generalizing p label out with
  | zero => simp [compareSchema, Within]
  | succ fuel ih =>
    rw [compareSchema_succ, foldlM_isSome baseSpec nextSpec _ _ ih, Within]
    simp only [calls, mem_schemaSteps]

end Fuel

section Finiteness

/-! Only parts of the documents are ever compared, and these are finitely many. -/

mutual

def parts : Json → List Json
  | .array items => .array items :: partsOfItems items
  | .object members => .object members :: partsOfMembers members
  | .null => [.null]
  | .bool b => [.bool b]
  | .number n => [.number n]
  | .string s => [.string s]

def partsOfItems : List Json → List Json
  | [] => []
  | item :: items => parts item ++ partsOfItems items

def partsOfMembers : List (JsString × Json) → List Json
  | [] => []
  | (_, value) :: members => parts value ++ partsOfMembers members

end

theorem self_mem_parts (j : Json) : j ∈ parts j := by
  cases j <;> simp [parts]

theorem partsOfItems_subset {items : List Json} {item : Json} (h : item ∈ items) : parts item ⊆ partsOfItems items := by
  induction items with
  | nil => cases h
  | cons other items ih =>
    rw [partsOfItems]
    rcases List.mem_cons.mp h with rfl | h
    · exact List.subset_append_left _ _
    · exact List.Subset.trans (ih h) (List.subset_append_right _ _)

theorem partsOfMembers_subset {members : List (JsString × Json)} {member : JsString × Json} (h : member ∈ members) :
    parts member.2 ⊆ partsOfMembers members := by
  induction members with
  | nil => cases h
  | cons other members ih =>
    rw [partsOfMembers]
    rcases List.mem_cons.mp h with rfl | h
    · exact List.subset_append_left _ _
    · exact List.Subset.trans (ih h) (List.subset_append_right _ _)

mutual

theorem parts_trans {i j : Json} : ∀ k : Json, j ∈ parts k → i ∈ parts j → i ∈ parts k
  | .array items, hj, hi => by
    rw [parts, List.mem_cons] at hj
    rcases hj with rfl | hj
    · exact hi
    · rw [parts]
      exact List.mem_cons_of_mem _ (partsOfItems_trans items hj hi)
  | .object members, hj, hi => by
    rw [parts, List.mem_cons] at hj
    rcases hj with rfl | hj
    · exact hi
    · rw [parts]
      exact List.mem_cons_of_mem _ (partsOfMembers_trans members hj hi)
  | .null, hj, hi => by simp_all [parts]
  | .bool _, hj, hi => by simp_all [parts]
  | .number _, hj, hi => by simp_all [parts]
  | .string _, hj, hi => by simp_all [parts]

theorem partsOfItems_trans {i j : Json} : ∀ items : List Json, j ∈ partsOfItems items → i ∈ parts j →
    i ∈ partsOfItems items
  | [], hj, _ => by cases hj
  | item :: items, hj, hi => by
    rw [partsOfItems, List.mem_append] at hj ⊢
    exact hj.imp (fun h => parts_trans item h hi) fun h => partsOfItems_trans items h hi

theorem partsOfMembers_trans {i j : Json} : ∀ members : List (JsString × Json), j ∈ partsOfMembers members →
    i ∈ parts j → i ∈ partsOfMembers members
  | [], hj, _ => by cases hj
  | (_, value) :: members, hj, hi => by
    rw [partsOfMembers, List.mem_append] at hj ⊢
    exact hj.imp (fun h => parts_trans value h hi) fun h => partsOfMembers_trans members h hi

end

def ReadIn (spec : Json) (v : Value) : Prop := ∀ j, v = .json j → j = .null ∨ j = .object [] ∨ j ∈ parts spec

theorem readIn_finite (spec : Json) : {v | ReadIn spec v}.Finite := by
  have hjson : {v | ReadIn spec v} ⊆ {.undefined, .function, .prototype, .json .null, .json (.object [])} ∪
      Value.json '' {j | j ∈ parts spec} := by
    intro v hv
    cases v with
    | json j =>
      rcases hv j rfl with rfl | rfl | hj
      · simp
      · simp
      · exact Or.inr ⟨j, hj, rfl⟩
    | _ => simp
  exact ((Set.toFinite _).union ((List.finite_toSet (parts spec)).image _)).subset hjson

variable {spec : Json} {v : Value}

theorem readIn_part {j : Json} (h : j ∈ parts spec) : ReadIn spec (.json j) := by
  intro i hi
  rw [← Value.json.inj hi]
  exact Or.inr (Or.inr h)

theorem readIn_self (spec : Json) : ReadIn spec (.json spec) := readIn_part (self_mem_parts spec)

theorem readIn_undefined (spec : Json) : ReadIn spec .undefined := by
  intro j hj
  cases hj

theorem ReadIn.asJson (h : ReadIn spec v) : ReadIn spec v.asJson := by
  unfold Value.asJson
  split_ifs
  · exact h
  · intro j hj
    exact Or.inr (Or.inl (Value.json.inj hj).symm)

theorem ReadIn.item {items : List Json} {item : Json} (h : ReadIn spec (.json (.array items))) (hitem : item ∈ items) :
    ReadIn spec (.json item) := by
  have hin : Json.array items ∈ parts spec := by simpa using h _ rfl
  apply readIn_part (parts_trans spec hin _)
  rw [parts]
  exact List.mem_cons_of_mem _ (partsOfItems_subset hitem (self_mem_parts item))

theorem ReadIn.member {members : List (JsString × Json)} {member : JsString × Json}
    (h : ReadIn spec (.json (.object members))) (hmember : member ∈ members) : ReadIn spec (.json member.2) := by
  have hin : Json.object members ∈ parts spec := by
    rcases h _ rfl with heq | heq | hin
    · cases heq
    · rw [Json.object.inj heq] at hmember
      cases hmember
    · exact hin
  apply readIn_part (parts_trans spec hin _)
  rw [parts]
  exact List.mem_cons_of_mem _ (partsOfMembers_subset hmember (self_mem_parts member.2))

theorem Value.get_cases (v : Value) (key : JsString) :
    (∃ members, v = .json (.object members) ∧ ∃ member ∈ members, v.get key = .json member.2) ∨
      v.get key = .undefined ∨ v.get key = .function ∨ v.get key = .prototype ∨ v.get key = .json .null := by
  unfold Value.get
  cases hown : Json.get key (.object v.members) with
  | some value =>
    rw [Json.get, Option.map_eq_some_iff] at hown
    obtain ⟨member, hfind, rfl⟩ := hown
    have hmem : member ∈ v.members := List.mem_reverse.mp (List.mem_of_find?_eq_some hfind)
    cases v with
    | json j =>
      cases j with
      | object members => exact Or.inl ⟨members, rfl, member, hmem, rfl⟩
      | _ => cases hmem
    | _ => cases hmem
  | none =>
    simp only
    split_ifs
    · simp
    · simp
    · cases v <;> simp
    · simp

theorem ReadIn.get (h : ReadIn spec v) (key : JsString) : ReadIn spec (v.get key) := by
  rcases v.get_cases key with ⟨members, rfl, member, hmember, hget⟩ | hget | hget | hget | hget
  · rw [hget]
    exact h.member hmember
  all_goals
    intro j hj
    rw [hget] at hj
    cases hj
  exact Or.inl rfl

theorem ReadIn.readSegment (h : ReadIn spec v) (rawSegment : JsString) : ReadIn spec (readSegment v rawSegment) := by
  unfold OpenApi.readSegment
  split_ifs
  · exact h.get _
  · exact readIn_undefined spec

theorem readIn_resolveRef (spec : Json) (ref : JsString) : ReadIn spec (resolveRef ref (.json spec)) := by
  have hwalk : ∀ (segments : List JsString) (node : Value), ReadIn spec node →
      ReadIn spec (segments.foldl OpenApi.readSegment node) := by
    intro segments
    induction segments with
    | nil => exact fun node hnode => hnode
    | cons segment segments ih => exact fun node hnode => ih _ (hnode.readSegment segment)
  unfold resolveRef
  split_ifs
  · exact hwalk _ _ (readIn_self spec)
  · exact readIn_undefined spec

theorem ReadIn.deref (h : ReadIn spec v) : ReadIn spec (deref v (.json spec)) := by
  unfold OpenApi.deref
  cases refOf v with
  | none => exact h
  | some ref =>
    simp only
    split_ifs
    · exact h
    · exact readIn_resolveRef spec ref

theorem ReadIn.variant {w : Value} (h : ReadIn spec v) (hw : w ∈ variants v) : ReadIn spec w := by
  unfold variants at hw
  cases hitems : (v.asJson.get (ofString "anyOf")).items with
  | none =>
    rw [hitems] at hw
    rwa [List.mem_singleton.mp hw]
  | some items =>
    rw [hitems] at hw
    obtain ⟨item, hitem, rfl⟩ := List.mem_map.mp hw
    have hread := h.asJson.get (ofString "anyOf")
    cases hlist : v.asJson.get (ofString "anyOf") with
    | json j =>
      rw [hlist] at hread hitems
      cases j with
      | array others =>
        obtain rfl := Option.some.inj hitems
        exact hread.item hitem
      | _ => cases hitems
    | _ => rw [hlist] at hitems; cases hitems

theorem Leads.readIn {base next : Json} {p q : Pair} (h : Leads (.json base) (.json next) p q)
    (hbase : ReadIn base p.1) (hnext : ReadIn next p.2) : ReadIn base q.1 ∧ ReadIn next q.2 := by
  cases h with
  | variant opens union hv hmatch hthere =>
    exact ⟨hbase.deref.variant hv, hnext.deref.variant (List.mem_of_find?_eq_some hmatch)⟩
  | items => exact ⟨hbase.deref.asJson.get _, hnext.deref.asJson.get _⟩
  | property =>
    exact ⟨(hbase.deref.asJson.get _).asJson.get _, (hnext.deref.asJson.get _).asJson.get _⟩

theorem reached_finite {base next : Json} {p : Pair} (hbase : ReadIn base p.1) (hnext : ReadIn next p.2) :
    {q | ReflTransGen (Leads (.json base) (.json next)) p q}.Finite := by
  apply ((readIn_finite base).prod (readIn_finite next)).subset
  intro q hq
  induction hq with
  | refl => exact ⟨hbase, hnext⟩
  | tail _ hlast ih => exact hlast.readIn ih.1 ih.2

end Finiteness

section Roots

def operationsAt (spec : Value) (pathKey : JsString) : Value :=
  ((spec.get (ofString "paths")).asJson.get pathKey).asJson

def responsesAt (spec : Value) (pathKey method : JsString) : Value :=
  (((operationsAt spec pathKey).get method).asJson.get (ofString "responses")).asJson

/-- The pairs that the comparison of two documents starts from: the schemas of the responses and of the components
that both documents have. -/
inductive Root (baseSpec nextSpec : Value) : Pair → Prop
  | response {pathKey status : JsString} {method : JsString × JsString}
      (hpath : pathKey ∈ (baseSpec.get (ofString "paths")).asJson.keys) (hmethod : method ∈ httpMethods)
      (hbase : (operationsAt baseSpec pathKey).has method.1 = true)
      (hnext : (operationsAt nextSpec pathKey).has method.1 = true)
      (hstatus : status ∈ (responsesAt baseSpec pathKey method.1).keys)
      (hthere : (responsesAt nextSpec pathKey method.1).has status = true) :
      Root baseSpec nextSpec (responseSchema ((responsesAt baseSpec pathKey method.1).get status),
        responseSchema ((responsesAt nextSpec pathKey method.1).get status))
  | component {name : JsString} (hname : name ∈ (schemas baseSpec).keys) (hthere : (schemas nextSpec).has name = true) :
      Root baseSpec nextSpec ((schemas baseSpec).get name, (schemas nextSpec).get name)

theorem mem_specSteps {baseSpec nextSpec : Value} {p : Pair} :
    p ∈ pairsOf (specSteps baseSpec nextSpec) ↔ Root baseSpec nextSpec p := by
  have hroutes : pairsOf ((nextSpec.get (ofString "paths")).asJson.keys.flatMap
      (addedRoutes (baseSpec.get (ofString "paths")).asJson (nextSpec.get (ofString "paths")).asJson)) = [] := by
    apply List.eq_nil_iff_forall_not_mem.mpr
    intro q hq
    obtain ⟨pathKey, -, hin⟩ := mem_pairsOf_flatMap.mp hq
    unfold addedRoutes at hin
    split_ifs at hin
    · exact List.not_mem_nil hin
    · rw [pairsOf_flatMap_addIf] at hin
      exact List.not_mem_nil hin
  simp only [specSteps, componentSteps, pairsOf_append, hroutes, pairsOf_flatMap_addIf, List.append_nil,
    List.mem_append, mem_pairsOf_flatMap]
  constructor
  · rintro (⟨pathKey, hpath, hp⟩ | ⟨name, hname, hp⟩)
    · simp only [pathSteps, mem_pairsOf_flatMap] at hp
      obtain ⟨method, hmethod, hp⟩ := hp
      split_ifs at hp with hbase hnext
      · simp at hp
      · simp at hp
      · simp only [operationSteps, pairsOf_append, pairsOf_flatMap_addIf, List.append_nil, mem_pairsOf_flatMap] at hp
        obtain ⟨status, hstatus, hp⟩ := hp
        split_ifs at hp with hthere
        · rw [pairsOf_compare, pairsOf_nil, List.mem_singleton] at hp
          rw [hp]
          exact .response hpath hmethod (by simpa [operationsAt] using hbase) (by simpa [operationsAt] using hnext)
            hstatus hthere
        · simp at hp
    · split_ifs at hp with hthere
      · rw [pairsOf_compare, pairsOf_nil, List.mem_singleton] at hp
        rw [hp]
        exact .component hname hthere
      · simp at hp
  · rintro (⟨hpath, hmethod, hbase, hnext, hstatus, hthere⟩ | ⟨hname, hthere⟩)
    · refine Or.inl ⟨_, hpath, ?_⟩
      simp only [pathSteps, mem_pairsOf_flatMap]
      refine ⟨_, hmethod, ?_⟩
      rw [operationsAt] at hbase hnext
      simp only [hbase, hnext, Bool.not_true, Bool.false_eq_true, if_false, operationSteps, pairsOf_append,
        pairsOf_flatMap_addIf, List.append_nil, mem_pairsOf_flatMap]
      refine ⟨_, hstatus, ?_⟩
      rw [responsesAt] at hthere
      rw [operationsAt] at hthere
      rw [if_pos hthere, pairsOf_compare]
      exact List.mem_cons_self
    · refine Or.inr ⟨_, hname, ?_⟩
      rw [if_pos hthere, pairsOf_compare]
      exact List.mem_cons_self

theorem readIn_responsesAt (spec : Json) (pathKey method : JsString) :
    ReadIn spec (responsesAt (.json spec) pathKey method) := by
  unfold responsesAt operationsAt
  exact ((((((readIn_self spec).get _).asJson.get _).asJson.get _).asJson.get _)).asJson

theorem ReadIn.responseSchema {spec : Json} {v : Value} (h : ReadIn spec v) : ReadIn spec (responseSchema v) := by
  unfold OpenApi.responseSchema
  exact ((h.asJson.get _).asJson.get _).asJson.get _

theorem readIn_schemas (spec : Json) : ReadIn spec (schemas (.json spec)) := by
  unfold schemas
  exact (((readIn_self spec).get _).asJson.get _).asJson

theorem readIn_pair {base next : Json} {v w : Value} (hbase : ReadIn base v) (hnext : ReadIn next w) :
    ReadIn base (v, w).1 ∧ ReadIn next (v, w).2 := ⟨hbase, hnext⟩

theorem Root.readIn {base next : Json} {p : Pair} (h : Root (.json base) (.json next) p) :
    ReadIn base p.1 ∧ ReadIn next p.2 := by
  cases h with
  | response =>
    apply readIn_pair
    · exact ((readIn_responsesAt base _ _).get _).responseSchema
    · exact ((readIn_responsesAt next _ _).get _).responseSchema
  | component =>
    apply readIn_pair
    · exact (readIn_schemas base).get _
    · exact (readIn_schemas next).get _

end Roots

section Termination

theorem asJson_json (j : Json) : ∃ spec, (Value.json j).asJson = .json spec := by
  cases j with
  | object members => exact ⟨.object members, rfl⟩
  | _ => exact ⟨.object [], rfl⟩

theorem diffOpenApiSpecs_isSome (before : JsString → JsString → Bool) (fuel : ℕ) (base next : Json) :
    (∃ diff, diffOpenApiSpecs before fuel base next = some diff) ↔
      ∀ p, Root (Value.json base).asJson (Value.json next).asJson p →
        Within (calls (Value.json base).asJson (Value.json next).asJson) fuel p := by
  have hrun := foldlM_isSome (Value.json base).asJson (Value.json next).asJson
    (specSteps (Value.json base).asJson (Value.json next).asJson) []
    (compareSchema_isSome (Value.json base).asJson (Value.json next).asJson fuel)
  simp only [mem_specSteps] at hrun
  rw [← hrun, Option.isSome_iff_exists, diffOpenApiSpecs]
  constructor
  · rintro ⟨diff, hdiff⟩
    rw [Option.bind_eq_bind, Option.bind_eq_some_iff] at hdiff
    obtain ⟨findings, hfindings, -⟩ := hdiff
    exact ⟨findings, hfindings⟩
  · rintro ⟨findings, hfindings⟩
    rw [hfindings]
    exact ⟨_, rfl⟩

theorem calls_iff_leads (baseSpec nextSpec : Value) : Calls (calls baseSpec nextSpec) = Leads baseSpec nextSpec := by
  funext p q
  exact propext mem_schemaSteps

theorem diffOpenApiSpecs_terminates_iff (before : JsString → JsString → Bool) (base next : Json) :
    (∃ fuel diff, diffOpenApiSpecs before fuel base next = some diff) ↔
      ∀ root, Root (Value.json base).asJson (Value.json next).asJson root →
        ∀ p, ReflTransGen (Leads (Value.json base).asJson (Value.json next).asJson) root p →
          ¬TransGen (Leads (Value.json base).asJson (Value.json next).asJson) p p := by
  simp only [diffOpenApiSpecs_isSome]
  obtain ⟨baseSpec, hbase⟩ := asJson_json base
  obtain ⟨nextSpec, hnext⟩ := asJson_json next
  rw [hbase, hnext]
  have hends : ∀ root, Root (.json baseSpec) (.json nextSpec) root →
      ((∃ fuel, Within (calls (.json baseSpec) (.json nextSpec)) fuel root) ↔
        ∀ p, ReflTransGen (Leads (.json baseSpec) (.json nextSpec)) root p →
          ¬TransGen (Leads (.json baseSpec) (.json nextSpec)) p p) := by
    intro root hroot
    rw [within_iff_acc, calls_iff_leads]
    exact acc_iff_no_cycle (reached_finite hroot.readIn.1 hroot.readIn.2)
  constructor
  · rintro ⟨fuel, hfuel⟩ root hroot
    exact (hends root hroot).mp ⟨fuel, hfuel root hroot⟩
  · intro h
    obtain ⟨fuel, hfuel⟩ := within_all (pairsOf (specSteps (.json baseSpec) (.json nextSpec)))
      fun root hroot => (hends root (mem_specSteps.mp hroot)).mpr (h root (mem_specSteps.mp hroot))
    exact ⟨fuel, fun root hroot => hfuel root (mem_specSteps.mpr hroot)⟩

def objectOf (members : List (String × Json)) : Json := .object (members.map fun m => (ofString m.1, m.2))

def referenceTo (name : String) : Json :=
  objectOf [("$ref", .string (ofString ("#/components/schemas/" ++ name)))]

def linkTo (name : String) : Json :=
  objectOf [("type", .string (ofString "object")), ("properties", objectOf [("x", referenceTo name)])]

def documentOf (schemas : List (String × Json)) : Json :=
  objectOf [("components", objectOf [("schemas", objectOf schemas)])]

def recursiveBase : Json := documentOf [("A", linkTo "A")]

def recursiveNext : Json := documentOf [("A", linkTo "B"), ("B", linkTo "B")]

theorem renamed_recursion_never_ends :
    (∀ before fuel, diffOpenApiSpecs before fuel recursiveBase recursiveNext = none) ∧
      ¬∀ (before : JsString → JsString → Bool) (base next : Json),
        ∃ fuel diff, diffOpenApiSpecs before fuel base next = some diff := by
  -- under two names a recursive schema is followed for ever
  have hloop : Leads (.json recursiveBase) (.json recursiveNext) (.json (referenceTo "A"), .json (referenceTo "B"))
      (.json (referenceTo "A"), .json (referenceTo "B")) := by
    rw [← @mem_schemaSteps _ _ [], show pairsOf (schemaSteps (.json recursiveBase) (.json recursiveNext)
      (.json (referenceTo "A")) (.json (referenceTo "B")) []) =
        [(.json (referenceTo "A"), .json (referenceTo "B"))] by rfl]
    exact List.mem_singleton_self _
  have hfirst : Leads (.json recursiveBase) (.json recursiveNext) (.json (linkTo "A"), .json (linkTo "B"))
      (.json (referenceTo "A"), .json (referenceTo "B")) := by
    rw [← @mem_schemaSteps _ _ [], show pairsOf (schemaSteps (.json recursiveBase) (.json recursiveNext)
      (.json (linkTo "A")) (.json (linkTo "B")) []) = [(.json (referenceTo "A"), .json (referenceTo "B"))] by rfl]
    exact List.mem_singleton_self _
  have hroot : Root (.json recursiveBase) (.json recursiveNext) (.json (linkTo "A"), .json (linkTo "B")) := by
    rw [← mem_specSteps, show pairsOf (specSteps (.json recursiveBase) (.json recursiveNext)) =
      [(.json (linkTo "A"), .json (linkTo "B"))] by rfl]
    exact List.mem_singleton_self _
  have hnever : ∀ before fuel, diffOpenApiSpecs before fuel recursiveBase recursiveNext = none := by
    intro before fuel
    rw [Option.eq_none_iff_forall_ne_some]
    intro diff hdiff
    have hwithin := (diffOpenApiSpecs_isSome before fuel recursiveBase recursiveNext).mp ⟨diff, hdiff⟩ _ hroot
    have hacc := within_iff_acc.mp ⟨fuel, hwithin⟩
    rw [show calls (Value.json recursiveBase).asJson (Value.json recursiveNext).asJson =
      calls (.json recursiveBase) (.json recursiveNext) from rfl, calls_iff_leads] at hacc
    exact not_acc_of_cycle (.single hloop) (hacc.inv hfirst)
  refine ⟨hnever, fun hall => ?_⟩
  obtain ⟨fuel, diff, hdiff⟩ := hall (fun _ _ => true) recursiveBase recursiveNext
  rw [hnever] at hdiff
  cases hdiff

end Termination

end CrashLab.OpenApi
