import Mathlib.Tactic

namespace CrashLab.WasmFormat

section Codes

inductive Uleb : ℕ → List UInt8 → Prop
  | last {byte : UInt8} (low : byte.toNat < 128) : Uleb byte.toNat [byte]
  | more {byte : UInt8} {n : ℕ} {bytes : List UInt8} (high : 128 ≤ byte.toNat) (behind : Uleb n bytes) :
      Uleb (byte.toNat - 128 + 128 * n) (byte :: bytes)

structure U32 (n : ℕ) (bytes : List UInt8) : Prop where
  code : Uleb n bytes
  short : bytes.length ≤ 5
  fits : n < 2 ^ 32

inductive Sleb : ℤ → List UInt8 → Prop
  | last {byte : UInt8} (low : byte.toNat < 128) :
      Sleb (if byte.toNat < 64 then byte.toNat else byte.toNat - 128) [byte]
  | more {byte : UInt8} {i : ℤ} {bytes : List UInt8} (high : 128 ≤ byte.toNat) (behind : Sleb i bytes) :
      Sleb (byte.toNat - 128 + 128 * i) (byte :: bytes)

inductive IntegerType where
  | u32
  | u64
  | s32
  | s64
deriving DecidableEq

def IntegerType.maxBytes : IntegerType → ℕ
  | .u32 | .s32 => 5
  | .u64 | .s64 => 10

def IntegerType.Code (type : IntegerType) (i : ℤ) (bytes : List UInt8) : Prop :=
  bytes.length ≤ type.maxBytes ∧
    match type with
    | .u32 => ∃ n : ℕ, i = n ∧ n < 2 ^ 32 ∧ Uleb n bytes
    | .u64 => ∃ n : ℕ, i = n ∧ n < 2 ^ 64 ∧ Uleb n bytes
    | .s32 => -2 ^ 31 ≤ i ∧ i < 2 ^ 31 ∧ Sleb i bytes
    | .s64 => -2 ^ 63 ≤ i ∧ i < 2 ^ 63 ∧ Sleb i bytes

variable {α : Type} (item : α → List UInt8 → Prop)

inductive Items : List α → List UInt8 → Prop
  | nil : Items [] []
  | cons {a : α} {as : List α} {bytes rest : List UInt8} (head : item a bytes) (tail : Items as rest) :
      Items (a :: as) (bytes ++ rest)

def Vector (as : List α) (bytes : List UInt8) : Prop :=
  ∃ count rest, bytes = count ++ rest ∧ U32 as.length count ∧ Items item as rest

def Byte (byte : UInt8) (bytes : List UInt8) : Prop := bytes = [byte]

variable {item} {as : List α} {bytes : List UInt8}

theorem Uleb.pos {n : ℕ} (h : Uleb n bytes) : 0 < bytes.length := by
  cases h <;> simp

inductive Terminated : List UInt8 → Prop
  | last {byte : UInt8} (low : byte.toNat < 128) : Terminated [byte]
  | more {byte : UInt8} {bytes : List UInt8} (high : 128 ≤ byte.toNat) (behind : Terminated bytes) :
      Terminated (byte :: bytes)

theorem Uleb.terminated {n : ℕ} (h : Uleb n bytes) : Terminated bytes := by
  induction h with
  | last low => exact .last low
  | more high _ ih => exact .more high ih

theorem Sleb.terminated {i : ℤ} (h : Sleb i bytes) : Terminated bytes := by
  induction h with
  | last low => exact .last low
  | more high _ ih => exact .more high ih

theorem Sleb.neg_iff {i : ℤ} (h : Sleb i bytes) : i < 0 ↔ ∃ byte, bytes.getLast? = some byte ∧ 64 ≤ byte.toNat % 128 := by
  induction h with
  | @last byte low =>
    rw [List.getLast?_singleton]
    split_ifs with hsmall
    · simp only [Option.some.injEq, exists_eq_left', Nat.mod_eq_of_lt low]
      omega
    · simp only [Option.some.injEq, exists_eq_left', Nat.mod_eq_of_lt low]
      omega
  | @more byte i bytes high behind ih =>
    have hmore : byte.toNat < 256 := byte.toNat_lt
    obtain ⟨first, rest, rfl⟩ : ∃ first rest, bytes = first :: rest := by
      cases behind with
      | last _ => exact ⟨_, _, rfl⟩
      | more _ _ => exact ⟨_, _, rfl⟩
    rw [List.getLast?_cons_cons, ← ih]
    omega

theorem Sleb.uleb_of_nonneg {i : ℤ} (h : Sleb i bytes) (hi : 0 ≤ i) : Uleb i.toNat bytes := by
  induction h with
  | @last byte low =>
    split_ifs with hsmall
    · exact .last low
    · rw [if_neg hsmall] at hi
      omega
  | @more byte i bytes high behind ih =>
    have hmore : byte.toNat < 256 := byte.toNat_lt
    have hcode := Uleb.more high (ih (by omega))
    rwa [show byte.toNat - 128 + 128 * i.toNat = (byte.toNat - 128 + 128 * i : ℤ).toNat by omega] at hcode

theorem Sleb.uleb_of_neg {i : ℤ} (h : Sleb i bytes) (hi : i < 0) :
    ∃ n : ℕ, (n : ℤ) = i + 2 ^ (7 * bytes.length) ∧ Uleb n bytes := by
  induction h with
  | @last byte low =>
    refine ⟨byte.toNat, ?_, .last low⟩
    split_ifs at hi ⊢ with hsmall
    · omega
    · rw [List.length_singleton]
      omega
  | @more byte i bytes high behind ih =>
    have hmore : byte.toNat < 256 := byte.toNat_lt
    obtain ⟨n, hn, hcode⟩ := ih (by omega)
    refine ⟨_, ?_, .more high hcode⟩
    have hpow : (2 : ℤ) ^ (7 * (bytes.length + 1)) = 128 * 2 ^ (7 * bytes.length) := by
      rw [Nat.mul_succ, pow_add]
      ring
    rw [List.length_cons, hpow]
    omega

theorem Uleb.lt {n : ℕ} (h : Uleb n bytes) : n < 2 ^ (7 * bytes.length) := by
  induction h with
  | last low =>
    rw [List.length_singleton]
    omega
  | @more byte n bytes high behind ih =>
    have hmore : byte.toNat < 256 := byte.toNat_lt
    rw [List.length_cons, Nat.mul_succ, pow_add]
    omega

theorem Items.length_le (h : Items item as bytes) (hitem : ∀ a bytes, item a bytes → 0 < bytes.length) :
    as.length ≤ bytes.length := by
  induction h with
  | nil => exact le_rfl
  | cons head _ ih =>
    have hpos := hitem _ _ head
    rw [List.length_append, List.length_cons]
    omega

theorem Vector.length_lt (h : Vector item as bytes) (hitem : ∀ a bytes, item a bytes → 0 < bytes.length) :
    as.length < bytes.length := by
  obtain ⟨count, rest, rfl, hcount, hitems⟩ := h
  have hpos := hcount.code.pos
  have hle := hitems.length_le hitem
  rw [List.length_append]
  omega

theorem Items.bytes_eq {as bytes : List UInt8} (h : Items Byte as bytes) : bytes = as := by
  induction h with
  | nil => rfl
  | cons head _ ih =>
    rw [ih, show _ = [_] from head]
    rfl

theorem Byte.pos (byte : UInt8) (bytes : List UInt8) (h : Byte byte bytes) : 0 < bytes.length := by
  rw [show bytes = [byte] from h]
  exact Nat.one_pos

section Short

theorem u32_short {byte : UInt8} (h : byte.toNat < 128) : U32 byte.toNat [byte] :=
  ⟨.last h, by simp, h.trans (by norm_num)⟩

theorem u32_ofNat {n : ℕ} (h : n < 128) : U32 n [UInt8.ofNat n] := by
  have hbyte : (UInt8.ofNat n).toNat = n := by
    rw [UInt8.toNat_ofNat']
    exact Nat.mod_eq_of_lt (by omega)
  have hshort := @u32_short (UInt8.ofNat n) (hbyte.symm ▸ h)
  rwa [hbyte] at hshort

theorem vector_short (hitems : Items item as bytes) (h : as.length < 128) :
    Vector item as (UInt8.ofNat as.length :: bytes) := ⟨[UInt8.ofNat as.length], bytes, rfl, u32_ofNat h, hitems⟩

theorem items_bytes (bytes : List UInt8) : Items Byte bytes bytes := by
  induction bytes with
  | nil => exact .nil
  | cons byte bytes ih => exact .cons (show Byte byte [byte] from rfl) ih

theorem items_singleton {a : α} (h : item a bytes) : Items item [a] bytes := by
  have hitems := Items.cons h (.nil : Items item [] [])
  rwa [List.append_nil] at hitems

end Short

end Codes

section Modules

structure Signature where
  params : List UInt8
  results : List UInt8
deriving DecidableEq

inductive SignatureCode : Signature → List UInt8 → Prop
  | mk {signature : Signature} {params results : List UInt8} (hparams : Vector Byte signature.params params)
      (hresults : Vector Byte signature.results results) : SignatureCode signature (0x60 :: (params ++ results))

inductive LimitsCode : List UInt8 → Prop
  | least {n : ℕ} {bytes : List UInt8} (h : U32 n bytes) : LimitsCode (0x00 :: bytes)
  | between {n m : ℕ} {bytes rest : List UInt8} (hleast : U32 n bytes) (hmost : U32 m rest) :
      LimitsCode (0x01 :: (bytes ++ rest))

/-- What an import asks for: only a function has a type index. -/
inductive ImportDesc where
  | func (typeIndex : ℕ)
  | table
  | mem
  | global

def ImportDesc.typeIndex : ImportDesc → Option ℕ
  | func typeIndex => some typeIndex
  | _ => none

inductive ImportDescCode : ImportDesc → List UInt8 → Prop
  | func {typeIndex : ℕ} {bytes : List UInt8} (h : U32 typeIndex bytes) : ImportDescCode (.func typeIndex) (0x00 :: bytes)
  | table {reftype : UInt8} {bytes : List UInt8} (h : LimitsCode bytes) : ImportDescCode .table (0x01 :: reftype :: bytes)
  | mem {bytes : List UInt8} (h : LimitsCode bytes) : ImportDescCode .mem (0x02 :: bytes)
  | global {valtype mutability : UInt8} (h : mutability.toNat ≤ 1) :
      ImportDescCode .global [0x03, valtype, mutability]

structure Import where
  moduleName : List UInt8
  name : List UInt8
  desc : ImportDesc

inductive ImportCode : Import → List UInt8 → Prop
  | mk {entry : Import} {moduleName name desc : List UInt8} (hmodule : Vector Byte entry.moduleName moduleName)
      (hname : Vector Byte entry.name name) (hdesc : ImportDescCode entry.desc desc) :
      ImportCode entry (moduleName ++ (name ++ desc))

structure Export where
  name : List UInt8
  kind : UInt8
  index : ℕ

inductive ExportCode : Export → List UInt8 → Prop
  | mk {entry : Export} {name index : List UInt8} (hname : Vector Byte entry.name name) (hkind : entry.kind.toNat ≤ 3)
      (hindex : U32 entry.index index) : ExportCode entry (name ++ entry.kind :: index)

structure Module where
  types : List Signature := []
  imports : List Import := []
  functions : List ℕ := []
  exports : List Export := []

def Module.typeIndices (m : Module) : List ℕ := m.imports.filterMap (fun entry => entry.desc.typeIndex) ++ m.functions

def Module.signature (m : Module) (funcIndex : ℕ) : Option Signature :=
  m.typeIndices[funcIndex]?.bind fun typeIndex => m.types[typeIndex]?

structure Module.WellFormed (m : Module) : Prop where
  typed : ∀ typeIndex ∈ m.typeIndices, typeIndex < m.types.length
  exported : ∀ entry ∈ m.exports, entry.kind = 0 → entry.index < m.typeIndices.length

abbrev Section := UInt8 × List UInt8

inductive SectionCode : Section → List UInt8 → Prop
  | mk {id : UInt8} {content size : List UInt8} (hsize : U32 content.length size) :
      SectionCode (id, content) (id :: (size ++ content))

def Holds (sections : List Section) (id : UInt8) {α : Type} (item : α → List UInt8 → Prop) (as : List α) : Prop :=
  (∃ content, (id, content) ∈ sections ∧ Vector item as content) ∨ (∀ content, (id, content) ∉ sections) ∧ as = []

/-- The bytes of a module; only custom sections, of id 0, may occur more than once. -/
structure Encodes (m : Module) (bytes : List UInt8) (sections : List Section) : Prop where
  body : ∃ rest, bytes = [0x00, 0x61, 0x73, 0x6d, 0x01, 0x00, 0x00, 0x00] ++ rest ∧ Items SectionCode sections rest
  distinct : sections.Pairwise fun a b => a.1 = b.1 → a.1 = 0
  types : Holds sections 1 SignatureCode m.types
  imports : Holds sections 2 ImportCode m.imports
  functions : Holds sections 3 U32 m.functions
  exports : Holds sections 7 ExportCode m.exports

variable {sections : List Section} {bytes : List UInt8}

theorem content_length_le {s : Section} (h : Items SectionCode sections bytes) (hs : s ∈ sections) :
    s.2.length ≤ bytes.length := by
  induction h with
  | nil => cases hs
  | cons head _ ih =>
    rw [List.length_append]
    rcases List.mem_cons.mp hs with rfl | hs
    · cases head
      simp only [List.length_cons, List.length_append]
      omega
    · have := ih hs
      omega

theorem Holds.length_le {id : UInt8} {α : Type} {item : α → List UInt8 → Prop} {as : List α}
    (h : Holds sections id item as) (hsections : Items SectionCode sections bytes)
    (hitem : ∀ a bytes, item a bytes → 0 < bytes.length) : as.length ≤ bytes.length := by
  obtain ⟨content, hmem, hvector⟩ | ⟨-, rfl⟩ := h
  · exact (hvector.length_lt hitem).le.trans (content_length_le hsections hmem)
  · exact Nat.zero_le _

theorem SignatureCode.pos (s : Signature) (bytes : List UInt8) (h : SignatureCode s bytes) : 0 < bytes.length := by
  cases h
  simp

theorem ExportCode.pos (entry : Export) (bytes : List UInt8) (h : ExportCode entry bytes) : 0 < bytes.length := by
  cases h
  simp

theorem ImportCode.pos (entry : Import) (bytes : List UInt8) (h : ImportCode entry bytes) : 0 < bytes.length := by
  cases h with
  | mk hmodule _ _ =>
    have := hmodule.length_lt Byte.pos
    rw [List.length_append]
    omega

theorem U32.pos (n : ℕ) (bytes : List UInt8) (h : U32 n bytes) : 0 < bytes.length := h.code.pos

theorem Encodes.typeIndices_length {m : Module} (h : Encodes m bytes sections) :
    m.typeIndices.length ≤ bytes.length + bytes.length := by
  obtain ⟨rest, rfl, hsections⟩ := h.body
  have himports := h.imports.length_le hsections ImportCode.pos
  have hfunctions := h.functions.length_le hsections U32.pos
  have hfilter := List.length_filterMap_le (fun entry : Import => entry.desc.typeIndex) m.imports
  rw [Module.typeIndices, List.length_append, List.length_append]
  omega

theorem items_sections (h : ∀ s ∈ sections, s.2.length < 128) :
    Items SectionCode sections (sections.flatMap fun s => s.1 :: UInt8.ofNat s.2.length :: s.2) := by
  induction sections with
  | nil => exact .nil
  | cons s sections ih =>
    rw [List.forall_mem_cons] at h
    exact .cons (.mk (u32_ofNat h.1)) (ih h.2)

end Modules

section Names

structure Names where
  moduleName : Option (List UInt8) := none
  functionNames : List (ℕ × List UInt8) := []

inductive NameAssocCode : ℕ × List UInt8 → List UInt8 → Prop
  | mk {index : ℕ} {name indexBytes nameBytes : List UInt8} (hindex : U32 index indexBytes)
      (hname : Vector Byte name nameBytes) : NameAssocCode (index, name) (indexBytes ++ nameBytes)

inductive Subsection where
  | moduleName (name : List UInt8)
  | functionNames (entries : List (ℕ × List UInt8))
  | other (id : UInt8) (content : List UInt8)

def Subsection.id : Subsection → UInt8
  | moduleName _ => 0
  | functionNames _ => 1
  | other id _ => id

inductive Subsection.Content : Subsection → List UInt8 → Prop
  | moduleName {name content : List UInt8} (h : Vector Byte name content) : Content (.moduleName name) content
  | functionNames {entries : List (ℕ × List UInt8)} {content : List UInt8} (h : Vector NameAssocCode entries content) :
      Content (.functionNames entries) content
  | other {id : UInt8} {content : List UInt8} (h : 2 ≤ id.toNat) : Content (.other id content) content

inductive SubsectionCode : Subsection → List UInt8 → Prop
  | mk {s : Subsection} {content size : List UInt8} (hcontent : s.Content content) (hsize : U32 content.length size) :
      SubsectionCode s (s.id :: (size ++ content))

def Subsection.module? : Subsection → Option (List UInt8)
  | moduleName name => some name
  | _ => none

def Subsection.functions : Subsection → List (ℕ × List UInt8)
  | functionNames entries => entries
  | _ => []

/-- The subsections stand in the order of their ids, the functions in that of their indices. -/
structure NamesCode (functions : ℕ) (names : Names) (subsections : List Subsection) (bytes : List UInt8) : Prop where
  items : Items SubsectionCode subsections bytes
  ordered : subsections.Pairwise fun a b => a.id.toNat < b.id.toNat
  moduleName : names.moduleName = subsections.findSome? Subsection.module?
  functionNames : names.functionNames = subsections.flatMap Subsection.functions
  indices : names.functionNames.Pairwise fun a b => a.1 < b.1
  indexed : ∀ entry ∈ names.functionNames, entry.1 < functions

def nameWord : List UInt8 := [0x6e, 0x61, 0x6d, 0x65]

theorem NameAssocCode.pos (entry : ℕ × List UInt8) (bytes : List UInt8) (h : NameAssocCode entry bytes) :
    0 < bytes.length := by
  cases h with
  | mk hindex _ =>
    have := hindex.code.pos
    rw [List.length_append]
    omega

end Names

end CrashLab.WasmFormat
