import CrashLab.ScVal
import CrashLab.ScValRoundTrip

namespace CrashLab.ScVal

open Cursor

section Inversion

variable {bytes : List UInt8}

theorem readFixed_ok {n pos pos' : ℕ} {v : List UInt8} (h : readFixed bytes n pos = .ok (v, pos')) :
    pos' = pos + n ∧ pos' ≤ bytes.length ∧ v.length = n := by
  rw [readFixed_eq] at h
  split_ifs at h with hshort
  obtain ⟨rfl, rfl⟩ := Prod.mk.inj (Except.ok.inj h)
  refine ⟨rfl, not_lt.mp hshort, ?_⟩
  rw [List.length_take, List.length_drop]
  omega

theorem readU32_ok {pos pos' : ℕ} {v : UInt32} (h : readU32 bytes pos = .ok (v, pos')) :
    pos' = pos + 4 ∧ pos' ≤ bytes.length := by
  obtain ⟨buf, hread, _⟩ := andReturn_ok h
  exact ⟨(readFixed_ok hread).1, (readFixed_ok hread).2.1⟩

theorem readU64_ok {pos pos' : ℕ} {v : UInt64} (h : readU64 bytes pos = .ok (v, pos')) : pos' = pos + 8 := by
  obtain ⟨buf, hread, _⟩ := andReturn_ok h
  exact (readFixed_ok hread).1

theorem readArray_ok {pos pos' : ℕ} {b : Bytes16} (h : readArray bytes pos = .ok (b, pos')) : pos' = pos + 16 := by
  obtain ⟨v, mid, hread, hcopy⟩ := bind_ok h
  obtain ⟨hmid, _, hlength⟩ := readFixed_ok hread
  rw [copyArray, dif_pos hlength] at hcopy
  obtain ⟨_, rfl⟩ := Prod.mk.inj (Except.ok.inj hcopy)
  exact hmid

theorem readBytes_ok {pos pos' : ℕ} {data : List UInt8} (h : readBytes bytes pos = .ok (data, pos')) :
    data.length < 2 ^ 32 ∧ pos' = pos + 4 + data.length + padding data.length := by
  obtain ⟨len, mid, hlen, hrest⟩ := bind_ok h
  obtain ⟨v, mid', hread, hskip⟩ := bind_ok hrest
  obtain ⟨rfl, _⟩ := readU32_ok hlen
  obtain ⟨rfl, _, hlength⟩ := readFixed_ok hread
  obtain ⟨rfl, rfl⟩ := Prod.mk.inj (Except.ok.inj hskip)
  rw [hlength]
  exact ⟨len.toNat_lt, rfl⟩

theorem readOpaque_ok {pos pos' : ℕ} {rest : List UInt8} (hpos : pos ≤ bytes.length)
    (h : readOpaque bytes pos = .ok (rest, pos')) : rest.length = bytes.length - pos ∧ pos' = bytes.length := by
  have hread : readOpaque bytes pos = (do
      let rest ← slice bytes pos bytes.length
      set bytes.length
      return rest : Reader ScValDecodeError (List UInt8)) pos := rfl
  rw [hread, slice, if_pos ⟨hpos, le_rfl⟩] at h
  obtain ⟨rfl, rfl⟩ := Prod.mk.inj (Except.ok.inj h)
  refine ⟨?_, rfl⟩
  rw [List.length_take, List.length_drop, min_self]

end Inversion

section Extension

variable {bytes more : List UInt8}

theorem readFixed_extends (n : ℕ) : Extends (readFixed bytes n) (readFixed (bytes ++ more) n) := by
  intro pos v pos' h
  rw [readFixed_eq] at h ⊢
  split_ifs at h with hshort
  have hfits : pos + n ≤ bytes.length := not_lt.mp hshort
  rw [if_neg (by rw [List.length_append]; omega), ← h, List.drop_append_of_le_length (by omega),
    List.take_append_of_le_length (by rw [List.length_drop]; omega)]

theorem readU32_extends : Extends (readU32 bytes) (readU32 (bytes ++ more)) := (readFixed_extends 4).andReturn _

theorem readU64_extends : Extends (readU64 bytes) (readU64 (bytes ++ more)) := (readFixed_extends 8).andReturn _

theorem readArray_extends : Extends (readArray bytes) (readArray (bytes ++ more)) :=
  (readFixed_extends 16).bind fun _ => Extends.refl _

theorem readBytes_extends : Extends (readBytes bytes) (readBytes (bytes ++ more)) := by
  apply readU32_extends.bind
  intro len
  apply (readFixed_extends len.toNat).bind
  exact fun _ => Extends.refl _

end Extension

section Tracking

variable {bytes more : List UInt8} {α β γ : Type}

/-- A value read from `start` on either fills exactly the bytes passed, and `read'` returns it as well, or holds
a raw node: then the read went to the end, and the four bytes of the unknown discriminant are not kept. -/
def Took (bytes : List UInt8) (good : α → Prop) (size : α → ℕ) (read' : Reader ScValDecodeError α)
    (start pos : ℕ) (a : α) (pos' : ℕ) : Prop :=
  (good a ∧ pos' = start + size a ∧ read' pos = .ok (a, pos')) ∨
    (pos' = bytes.length ∧ start + size a + 4 = bytes.length)

def Tracks (bytes : List UInt8) (good : α → Prop) (size : α → ℕ) (read read' : Reader ScValDecodeError α) : Prop :=
  ∀ pos a pos', read pos = .ok (a, pos') → Took bytes good size read' pos pos a pos'

def Ends (bytes : List UInt8) (size : α → ℕ) (read : Reader ScValDecodeError α) : Prop :=
  ∀ a pos', read bytes.length = .ok (a, pos') → pos' = bytes.length ∧ size a = 0

variable {good : α → Prop} {good' : β → Prop} {size : α → ℕ} {size' : β → ℕ}
variable {read read' : Reader ScValDecodeError α} {next next' : Reader ScValDecodeError β}

theorem Tracks.both (h : Tracks bytes good size read read') (hnext : Tracks bytes good' size' next next')
    (hends : Ends bytes size' next) (f : α → β → γ) {goodBoth : γ → Prop} {sizeBoth : γ → ℕ}
    (hgood : ∀ a b, good a → good' b → goodBoth (f a b)) (hsize : ∀ a b, sizeBoth (f a b) = size a + size' b) :
    Tracks bytes goodBoth sizeBoth (do let a ← read; let b ← next; return f a b)
      (do let a ← read'; let b ← next'; return f a b) := by
  intro pos c pos' hboth
  obtain ⟨a, mid, hread, hrest⟩ := bind_ok hboth
  obtain ⟨b, hb, rfl⟩ := andReturn_ok hrest
  rw [Took, hsize]
  rcases h _ _ _ hread with ⟨ha, rfl, hread'⟩ | ⟨rfl, hlost⟩
  · rcases hnext _ _ _ hb with ⟨hgoodb, rfl, hnext'⟩ | ⟨rfl, hlost⟩
    · left
      refine ⟨hgood a b ha hgoodb, Nat.add_assoc _ _ _, ?_⟩
      rw [bind_of_ok hread', bind_of_ok hnext']
      rfl
    · right
      exact ⟨rfl, by omega⟩
  · obtain ⟨rfl, hb⟩ := hends _ _ hb
    right
    exact ⟨rfl, by omega⟩

def totalSize (size : α → ℕ) (items : List α) : ℕ := (items.map size).sum

theorem ends_repeatRead (hstuck : ∀ p, read bytes.length ≠ .ok p) (count : ℕ) :
    Ends bytes (totalSize size) (repeatRead read count) := by
  intro items pos' h
  cases count with
  | zero =>
    obtain ⟨rfl, rfl⟩ := Prod.mk.inj (Except.ok.inj h)
    exact ⟨rfl, rfl⟩
  | succ count =>
    obtain ⟨item, mid, hitem, _⟩ := bind_ok h
    exact absurd hitem (hstuck _)

theorem Tracks.repeatRead (h : Tracks bytes good size read read') (hstuck : ∀ p, read bytes.length ≠ .ok p)
    (count : ℕ) :
    Tracks bytes (fun items : List α => items.length = count ∧ ∀ item ∈ items, good item)
      (totalSize size) (repeatRead read count) (repeatRead read' count) := by
  induction count with
  | zero =>
    intro pos items pos' hread
    obtain ⟨rfl, rfl⟩ := Prod.mk.inj (Except.ok.inj hread)
    exact Or.inl ⟨⟨rfl, fun _ hitem => absurd hitem List.not_mem_nil⟩, rfl, rfl⟩
  | succ count ih =>
    apply h.both ih (ends_repeatRead hstuck count) List.cons
    · rintro item items hitem ⟨hlength, hitems⟩
      exact ⟨congrArg (· + 1) hlength, List.forall_mem_cons.mpr ⟨hitem, hitems⟩⟩
    · intro item items
      rw [totalSize, List.map_cons, List.sum_cons]
      rfl

theorem Tracks.readEntry {good : ScValNode → Prop} {size : ScValNode → ℕ}
    {child child' : Reader ScValDecodeError ScValNode} (h : Tracks bytes good size child child')
    (hstuck : ∀ p, child bytes.length ≠ .ok p) :
    Tracks bytes (fun entry : ScValNode × ScValNode => good entry.1 ∧ good entry.2)
      (fun entry => size entry.1 + size entry.2) (readEntry child) (readEntry child') :=
  h.both h (fun _ _ hread => absurd hread (hstuck _)) Prod.mk (fun _ _ => And.intro) fun _ _ => rfl

end Tracking

def Shallow (levels : ℕ) (t : ScValNode) : Prop := Modelled t ∧ depth t < levels

def nodeSize (t : ScValNode) : ℕ := (encodeNode t).length

def entrySize (entry : ScValNode × ScValNode) : ℕ := nodeSize entry.1 + nodeSize entry.2

@[simp] theorem length_writeU32 (v : UInt32) : (writeU32 v).length = 4 := length_beBytes 4 _

@[simp] theorem length_writeU64 (v : UInt64) : (writeU64 v).length = 8 := length_beBytes 8 _

theorem length_writeBytes (data : List UInt8) :
    (writeBytes data).length = 4 + data.length + padding data.length := by
  rw [writeBytes, List.length_append, List.length_append, length_writeU32, List.length_replicate]

theorem length_encodeItems (items : List ScValNode) : (encodeItems items).length = totalSize nodeSize items := by
  rw [encodeItems_eq, List.length_flatMap]
  rfl

theorem length_encodeEntries (entries : List (ScValNode × ScValNode)) :
    (encodeEntries entries).length = totalSize entrySize entries := by
  rw [encodeEntries_eq, List.length_flatMap]
  simp only [List.length_append]
  rfl

section Variants

variable {bytes more : List UInt8} {levels : ℕ} {α : Type}

def TracksVariant (bytes : List UInt8) (levels : ℕ) (read read' : Reader ScValDecodeError ScValNode) : Prop :=
  ∀ pos t pos', pos + 4 ≤ bytes.length → read (pos + 4) = .ok (t, pos') →
    Took bytes (Shallow levels) nodeSize read' pos (pos + 4) t pos'

theorem TracksVariant.ite {p : Prop} [Decidable p] {read read' other other' : Reader ScValDecodeError ScValNode}
    (h : TracksVariant bytes levels read read') (h' : TracksVariant bytes levels other other') :
    TracksVariant bytes levels (if p then read else other) (if p then read' else other') := by
  split_ifs
  · exact h
  · exact h'

theorem TracksVariant.leaf {read read' : Reader ScValDecodeError α} (f : α → ScValNode) (h : Extends read read')
    (hread : ∀ pos a pos', read pos = .ok (a, pos') → Shallow levels (f a) ∧ pos' + 4 = pos + nodeSize (f a)) :
    TracksVariant bytes levels (do return f (← read)) (do return f (← read')) := by
  intro pos t pos' _ hvariant
  obtain ⟨a, ha, rfl⟩ := andReturn_ok hvariant
  obtain ⟨hgood, hsize⟩ := hread _ _ _ ha
  exact Or.inl ⟨hgood, by omega, h.andReturn f _ _ _ hvariant⟩

theorem TracksVariant.fixed {read read' : Reader ScValDecodeError α} (f : α → ScValNode) (n : ℕ)
    (h : Extends read read') (hwidth : ∀ {pos a pos'}, read pos = .ok (a, pos') → pos' = pos + n)
    (hgood : ∀ a, Shallow levels (f a)) (hsize : ∀ a, nodeSize (f a) = 4 + n) :
    TracksVariant bytes levels (do return f (← read)) (do return f (← read')) := by
  apply TracksVariant.leaf f h
  intro pos a pos' hread
  rw [hwidth hread, hsize]
  exact ⟨hgood a, by omega⟩

theorem TracksVariant.counted {good : α → Prop} {size : α → ℕ} {read read' : Reader ScValDecodeError α}
    (f : List α → ScValNode) (h : Tracks bytes good size read read') (hstuck : ∀ p, read bytes.length ≠ .ok p)
    (hgood : ∀ items, items.length < 2 ^ 32 → (∀ item ∈ items, good item) → Shallow levels (f items))
    (hsize : ∀ items, nodeSize (f items) = 8 + totalSize size items) :
    TracksVariant bytes levels (do let count ← readU32 bytes; return f (← repeatRead read count.toNat))
      (do let count ← readU32 (bytes ++ more); return f (← repeatRead read' count.toNat)) := by
  intro pos t pos' _ hvariant
  obtain ⟨count, mid, hcount, hrest⟩ := bind_ok hvariant
  obtain ⟨items, hitems, rfl⟩ := andReturn_ok hrest
  obtain ⟨rfl, _⟩ := readU32_ok hcount
  rw [Took, hsize]
  rcases h.repeatRead hstuck count.toNat _ _ _ hitems with ⟨⟨hlength, heach⟩, rfl, hread'⟩ | ⟨rfl, hlost⟩
  · left
    refine ⟨hgood items (hlength.trans_lt count.toNat_lt) heach, by omega, ?_⟩
    rw [bind_of_ok (readU32_extends _ _ _ hcount), bind_of_ok hread']
    rfl
  · right
    exact ⟨rfl, by omega⟩

theorem TracksVariant.raw (read' : Reader ScValDecodeError ScValNode) :
    TracksVariant bytes levels (do return .opaque_ (← readOpaque bytes)) read' := by
  intro pos t pos' hpos hvariant
  obtain ⟨rest, hrest, rfl⟩ := andReturn_ok hvariant
  obtain ⟨hlength, rfl⟩ := readOpaque_ok hpos hrest
  have hsize : nodeSize (.opaque_ rest) = rest.length := by rw [nodeSize, encodeNode]
  right
  rw [hsize]
  exact ⟨rfl, by omega⟩

theorem shallow_vec {items : List ScValNode} (hlength : items.length < 2 ^ 32)
    (h : ∀ item ∈ items, Shallow levels item) : Shallow (levels + 1) (.vec items) := by
  refine ⟨Modelled.vec hlength fun item hitem => (h item hitem).1, ?_⟩
  rw [depth]
  induction items with
  | nil => exact Nat.succ_pos levels
  | cons item items ih =>
    rw [List.forall_mem_cons] at h
    rw [List.length_cons] at hlength
    have hrest := ih (by omega) h.2
    have hfirst := h.1.2
    rw [itemsDepth]
    omega

theorem shallow_map {entries : List (ScValNode × ScValNode)} (hlength : entries.length < 2 ^ 32)
    (h : ∀ entry ∈ entries, Shallow levels entry.1 ∧ Shallow levels entry.2) : Shallow (levels + 1) (.map entries) := by
  refine ⟨Modelled.map hlength (fun entry hentry => (h entry hentry).1.1) fun entry hentry => (h entry hentry).2.1, ?_⟩
  rw [depth]
  induction entries with
  | nil => exact Nat.succ_pos levels
  | cons entry entries ih =>
    rw [List.forall_mem_cons] at h
    rw [List.length_cons] at hlength
    have hrest := ih (by omega) h.2
    have hkey := h.1.1.2
    have hval := h.1.2.2
    rw [entriesDepth]
    omega

section Decoding

variable {child child' : Reader ScValDecodeError ScValNode}

theorem shallow_leaf {t : ScValNode} (h : Modelled t) (hdepth : depth t = 0) : Shallow (levels + 1) t :=
  ⟨h, hdepth.trans_lt levels.succ_pos⟩

theorem TracksVariant.data (f : List UInt8 → ScValNode) (hgood : ∀ data, data.length < 2 ^ 32 → Modelled (f data))
    (hdepth : ∀ data, depth (f data) = 0) (hsize : ∀ data, nodeSize (f data) = 4 + (writeBytes data).length) :
    TracksVariant bytes (levels + 1) (do return f (← readBytes bytes)) (do return f (← readBytes (bytes ++ more))) := by
  apply TracksVariant.leaf f readBytes_extends
  intro pos data pos' hread
  obtain ⟨hlength, rfl⟩ := readBytes_ok hread
  rw [hsize, length_writeBytes]
  exact ⟨shallow_leaf (hgood data hlength) (hdepth data), by omega⟩

theorem decodeVariant_tracks (h : Tracks bytes (Shallow levels) nodeSize child child')
    (hstuck : ∀ p, child bytes.length ≠ .ok p) (tag : UInt32) :
    TracksVariant bytes (levels + 1) (decodeVariant bytes child tag) (decodeVariant (bytes ++ more) child' tag) := by
  have hentry : ∀ p, readEntry child bytes.length ≠ .ok p := by
    rintro ⟨entry, pos'⟩ hread
    obtain ⟨key, mid, hkey, _⟩ := bind_ok hread
    exact hstuck _ hkey
  unfold decodeVariant
  refine .ite ?void (.ite ?bool (.ite ?u32 (.ite ?i32 (.ite ?u64 (.ite ?i64 (.ite ?timePoint (.ite ?duration
    (.ite ?u128 (.ite ?i128 (.ite ?bytes (.ite ?string (.ite ?symbol (.ite ?vec (.ite ?map ?raw))))))))))))))
  case void =>
    intro pos t pos' _ hread
    obtain ⟨rfl, rfl⟩ := Prod.mk.inj (Except.ok.inj hread)
    exact Or.inl ⟨shallow_leaf Modelled.void rfl, by simp [nodeSize, encodeNode], rfl⟩
  case bool =>
    apply TracksVariant.fixed _ 4 readU32_extends fun hread => (readU32_ok hread).1
    · exact fun v => shallow_leaf (Modelled.bool _) rfl
    · exact fun v => by simp [nodeSize, encodeNode]
  case u32 =>
    apply TracksVariant.fixed _ 4 readU32_extends fun hread => (readU32_ok hread).1
    · exact fun v => shallow_leaf (Modelled.u32 _) rfl
    · exact fun v => by simp [nodeSize, encodeNode]
  case i32 =>
    apply TracksVariant.fixed _ 4 readU32_extends fun hread => (readU32_ok hread).1
    · exact fun v => shallow_leaf (Modelled.i32 _) rfl
    · exact fun v => by simp [nodeSize, encodeNode]
  case u64 =>
    apply TracksVariant.fixed _ 8 readU64_extends readU64_ok
    · exact fun v => shallow_leaf (Modelled.u64 _) rfl
    · exact fun v => by simp [nodeSize, encodeNode]
  case i64 =>
    apply TracksVariant.fixed _ 8 readU64_extends readU64_ok
    · exact fun v => shallow_leaf (Modelled.i64 _) rfl
    · exact fun v => by simp [nodeSize, encodeNode]
  case timePoint =>
    apply TracksVariant.fixed _ 8 readU64_extends readU64_ok
    · exact fun v => shallow_leaf (Modelled.timePoint _) rfl
    · exact fun v => by simp [nodeSize, encodeNode]
  case duration =>
    apply TracksVariant.fixed _ 8 readU64_extends readU64_ok
    · exact fun v => shallow_leaf (Modelled.duration _) rfl
    · exact fun v => by simp [nodeSize, encodeNode]
  case u128 =>
    apply TracksVariant.fixed _ 16 readArray_extends readArray_ok
    · exact fun v => shallow_leaf (Modelled.u128 _) rfl
    · exact fun v => by simp [nodeSize, encodeNode, v.length_eq]
  case i128 =>
    apply TracksVariant.fixed _ 16 readArray_extends readArray_ok
    · exact fun v => shallow_leaf (Modelled.i128 _) rfl
    · exact fun v => by simp [nodeSize, encodeNode, v.length_eq]
  case bytes =>
    apply TracksVariant.data ScValNode.bytes (fun _ => Modelled.bytes) fun _ => rfl
    exact fun data => by simp [nodeSize, encodeNode]
  case string =>
    apply TracksVariant.data ScValNode.string (fun _ => Modelled.string) fun _ => rfl
    exact fun data => by simp [nodeSize, encodeNode]
  case symbol =>
    apply TracksVariant.data ScValNode.symbol (fun _ => Modelled.symbol) fun _ => rfl
    exact fun data => by simp [nodeSize, encodeNode]
  case vec =>
    apply TracksVariant.counted ScValNode.vec h hstuck fun items => shallow_vec
    exact fun items => by simp [nodeSize, encodeNode, length_encodeItems, ← add_assoc]
  case map =>
    have hread : Tracks bytes _ entrySize (readEntry child) (readEntry child') := h.readEntry hstuck
    apply TracksVariant.counted ScValNode.map hread hentry fun entries => shallow_map
    exact fun entries => by simp [nodeSize, encodeNode, length_encodeEntries, ← add_assoc]
  case raw => exact TracksVariant.raw _

theorem decodeNode_stuck (levels : ℕ) (p : ScValNode × ℕ) : decodeNode bytes levels bytes.length ≠ .ok p := by
  intro h
  cases levels with
  | zero => exact nomatch h
  | succ levels =>
    obtain ⟨tag, mid, htag, _⟩ := bind_ok h
    obtain ⟨rfl, hmid⟩ := readU32_ok htag
    omega

theorem decodeNode_tracks (levels : ℕ) :
    Tracks bytes (Shallow levels) nodeSize (decodeNode bytes levels) (decodeNode (bytes ++ more) levels) := by
  induction levels with
  | zero => exact fun _ _ _ h => nomatch h
  | succ levels ih =>
    intro pos t pos' h
    obtain ⟨tag, mid, htag, hvariant⟩ := bind_ok h
    obtain ⟨rfl, hmid⟩ := readU32_ok htag
    rcases decodeVariant_tracks ih (decodeNode_stuck levels) tag pos t pos' hmid hvariant with ⟨hgood, hpos, hread'⟩ | hlost
    · left
      refine ⟨hgood, hpos, ?_⟩
      rw [decodeNode, bind_of_ok (readU32_extends _ _ _ htag)]
      exact hread'
    · exact Or.inr hlost

end Decoding

end Variants

section Mutation

variable {seed : UInt64}

def inert (seed : UInt64) : ScValNode → Bool
  | .void => true
  | .u64 _ => seed = 0
  | .i64 _ => seed = 0
  | .bytes data => data = []
  | .string data => data = []
  | .symbol data => data = []
  | .vec [] => true
  | .vec (first :: _) => inert seed first
  | .map [] => true
  | .map ((_, val) :: _) => inert seed val
  | .opaque_ _ => true
  | _ => false

@[simp] theorem length_bumpLast (data : List UInt8) : (bumpLast data).length = data.length := List.length_modify ..

theorem bumpLast_eq_iff {data : List UInt8} : bumpLast data = data ↔ data = [] := by
  constructor
  · intro h
    by_contra hne
    have hlast : data.length - 1 < data.length := by
      have := List.length_pos_of_ne_nil hne
      omega
    have hbyte := congrArg (fun l => l[data.length - 1]?) h
    simp [bumpLast, hlast] at hbyte
  · rintro rfl
    rfl

theorem modifyFirst_ne {f : UInt8 → UInt8} (hf : ∀ b, f b ≠ b) (b : Bytes16) : b.modifyFirst f ≠ b := by
  intro h
  have hbytes := congrArg Bytes16.bytes h
  have hlength := b.length_eq
  cases hb : b.bytes with
  | nil => simp [hb] at hlength
  | cons first rest => simp [Bytes16.modifyFirst, hb, hf] at hbytes

theorem nodeSize_mutateNode (t : ScValNode) : nodeSize (mutateNode seed t) = nodeSize t := by
  fun_induction mutateNode seed t with
  | case13 first items ih => 
    simp only [nodeSize] at ih
    simp [nodeSize, encodeNode, encodeItems, ih]
  | case14 key val entries ih => 
    simp only [nodeSize] at ih
    simp [nodeSize, encodeNode, encodeEntries, ih]
  | case10 | case11 | case12 => simp [nodeSize, encodeNode, length_writeBytes]
  | _ => simp [nodeSize, encodeNode, Bytes16.length_eq]

theorem depth_mutateNode (t : ScValNode) : depth (mutateNode seed t) = depth t := by
  fun_induction mutateNode seed t with
  | case13 first items ih => rw [depth, depth, itemsDepth, itemsDepth, ih]
  | case14 key val entries ih => rw [depth, depth, entriesDepth, entriesDepth, ih]
  | _ => rfl

theorem modelled_mutateNode {t : ScValNode} (h : Modelled t) : Modelled (mutateNode seed t) := by
  fun_induction mutateNode seed t with
  | case10 data =>
    cases h with
    | bytes hlength => exact .bytes (by rwa [length_bumpLast])
  | case11 data =>
    cases h with
    | string hlength => exact .string (by rwa [length_bumpLast])
  | case12 data =>
    cases h with
    | symbol hlength => exact .symbol (by rwa [length_bumpLast])
  | case13 first items ih =>
    cases h with
    | vec hlength heach =>
      rw [List.forall_mem_cons] at heach
      exact .vec hlength (List.forall_mem_cons.mpr ⟨ih heach.1, heach.2⟩)
  | case14 key val entries ih =>
    cases h with
    | map hlength hkeys hvalues =>
      rw [List.forall_mem_cons] at hkeys hvalues
      exact .map hlength (List.forall_mem_cons.mpr hkeys) (List.forall_mem_cons.mpr ⟨ih hvalues.1, hvalues.2⟩)
  | case15 | case16 | case17 | case18 => exact h
  | _ => constructor

theorem mutateNode_eq_iff (t : ScValNode) : mutateNode seed t = t ↔ inert seed t := by
  have hnext : ∀ b : UInt8, b + 1 ≠ b := fun b => by simp
  have hprevious : ∀ b : UInt8, b - 1 ≠ b := fun b hsame => hnext b (UInt8.sub_eq_iff_eq_add.mp hsame).symm
  fun_induction mutateNode seed t with
  | case3 v =>
    have hne : v - 1 ≠ v := by simp [Int32.sub_eq_iff_eq_add]
    simp [inert, hne]
  | case5 v =>
    have hzero : v - seed.toInt64 = v ↔ seed = 0 := by
      rw [Int64.sub_eq_iff_eq_add, Int64.left_eq_add]
      constructor
      · intro h
        rw [← UInt64.toUInt64_toInt64 seed, h]
        rfl
      · rintro rfl
        rfl
    simp [inert, hzero]
  | case8 b => simp [inert, modifyFirst_ne hnext]
  | case9 b => simp [inert, modifyFirst_ne hprevious]
  | case10 | case11 | case12 => simp [inert, bumpLast_eq_iff]
  | case13 first items ih => simpa [inert] using ih
  | case14 key val entries ih => simpa [inert] using ih
  | _ => simp [inert]

theorem decode_ok {payload : List UInt8} {t : ScValNode} (h : decode payload = .ok t) :
    ∃ pos, decodeFrom payload 0 = .ok (t, pos) := by
  unfold decode at h
  split_ifs at h with hempty
  cases hread : decodeFrom payload 0 with
  | error fault =>
    rw [hread] at h
    exact nomatch h
  | ok p =>
    rw [hread] at h
    obtain rfl := Except.ok.inj h
    exact ⟨p.2, rfl⟩

theorem take_encode_mutate_eq_iff {payload : List UInt8} {t : ScValNode} {limit : ℕ} (h : decode payload = .ok t) :
    (encodeNode (mutateNode seed t)).take limit = payload ↔ (encodeNode t).take limit = payload ∧ inert seed t := by
  constructor
  · intro hpayload
    obtain ⟨pos, hread⟩ := decode_ok h
    have hsplit : encodeNode (mutateNode seed t) = payload ++ (encodeNode (mutateNode seed t)).drop limit := by
      rw [← hpayload, List.take_append_drop]
    have hsize := @nodeSize_mutateNode seed t
    rcases @decodeNode_tracks payload ((encodeNode (mutateNode seed t)).drop limit) _ 0 t pos hread with ⟨⟨hmodelled, hdepth⟩, _, hread'⟩ | ⟨_, hlost⟩
    · have hdepth' : depth (mutateNode seed t) < maxMutationDepth + 1 := by rwa [depth_mutateNode]
      have hback := @decodeNode_encodeNode _ _ (modelled_mutateNode hmodelled) _ hdepth' [] []
        (List.append_nil _).symm
      rw [← hsplit] at hread'
      rw [List.nil_append, List.length_nil, hread'] at hback
      have hsame : mutateNode seed t = t := (Prod.mk.inj (Except.ok.inj hback)).1.symm
      rw [hsame] at hpayload
      exact ⟨hpayload, (mutateNode_eq_iff t).mp hsame⟩
    · have hlength := congrArg List.length hsplit
      rw [List.length_append] at hlength
      unfold nodeSize at hsize hlost
      omega
  · rintro ⟨hpayload, hinert⟩
    rwa [(mutateNode_eq_iff t).mpr hinert]

theorem four_le_of_decode {payload : List UInt8} {t : ScValNode} (h : decode payload = .ok t) : 4 ≤ payload.length := by
  obtain ⟨pos, hread⟩ := decode_ok h
  obtain ⟨tag, mid, htag, _⟩ := bind_ok hread
  obtain ⟨hmid, hinside⟩ := readU32_ok htag
  omega

theorem nodeSize_of_decode {payload : List UInt8} {t : ScValNode} (h : decode payload = .ok t) :
    nodeSize t ≤ payload.length + 3 := by
  obtain ⟨pos, hread⟩ := decode_ok h
  have hnear := @decodeNode_safe payload (maxMutationDepth + 1) 0 (Nat.zero_le _)
  rw [← decodeFrom, hread] at hnear
  change pos ≤ payload.length + 3 at hnear
  rcases @decodeNode_tracks payload [] _ 0 t pos hread with ⟨_, hsize, _⟩ | ⟨_, hlost⟩
  · omega
  · omega

end Mutation

section MutateXdrPayload

variable {payload : List UInt8} {config : ScValMutatorConfig} {rng : UInt64}

theorem mutateXdrPayload_of_decode {t : ScValNode} (h : decode payload = .ok t) (hgrowth : 3 ≤ config.maxGrowth) :
    mutateXdrPayload payload config rng =
      (.ok (encodeNode (mutateNode (advanceRng rng) t)), advanceRng rng) := by
  have hsize := nodeSize_of_decode h
  rw [← @nodeSize_mutateNode (advanceRng rng) t] at hsize
  have hfits : (encodeNode (mutateNode (advanceRng rng) t)).length ≤
      max config.maxLen (payload.length + config.maxGrowth) := by
    unfold nodeSize at hsize
    omega
  rw [mutateXdrPayload, h]
  exact if_pos hfits

theorem mutateXdrPayload_of_error {fault : Fault ScValDecodeError} (h : decode payload = .error fault) :
    mutateXdrPayload payload config rng = (.ok (byteFlip payload (advanceRng rng)), advanceRng rng) := by
  rw [mutateXdrPayload, h]

theorem mutateXdrPayload_ok (payload : List UInt8) (config : ScValMutatorConfig) (rng : UInt64) :
    ∃ mutated, mutateXdrPayload payload config rng = (.ok mutated, advanceRng rng) := by
  cases hdecode : decode payload with
  | error fault => exact ⟨_, mutateXdrPayload_of_error hdecode⟩
  | ok t =>
    rw [mutateXdrPayload, hdecode]
    dsimp only [encode]
    split_ifs
    · exact ⟨_, rfl⟩
    · exact ⟨_, rfl⟩

theorem byteFlip_ne : byteFlip payload rng ≠ payload := by
  unfold byteFlip
  split_ifs with hpayload
  · rw [hpayload]
    exact List.cons_ne_nil _ _
  · intro hsame
    have hidx : rng.toNat % payload.length < payload.length := Nat.mod_lt _ (List.length_pos_of_ne_nil hpayload)
    have hbyte := congrArg (fun l => l[rng.toNat % payload.length]?) hsame
    simp [hidx] at hbyte

theorem length_byteFlip : (byteFlip payload rng).length = max payload.length 1 := by
  unfold byteFlip
  split_ifs with hpayload
  · rw [hpayload]
    rfl
  · have hpositive := List.length_pos_of_ne_nil hpayload
    rw [List.length_modify]
    omega

end MutateXdrPayload

end CrashLab.ScVal
