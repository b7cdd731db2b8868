import CrashLab.MutationProgress

namespace CrashLab.ScVal

open Cursor

section Shifting

variable {before bytes : List UInt8}

theorem readFixed_shifts (n : ℕ) : Shifts before.length (readFixed bytes n) (readFixed (before ++ bytes) n) := by
  intro pos
  rw [readFixed_eq, readFixed_eq, List.length_append, ← List.drop_drop, List.drop_left]
  split_ifs
  · rfl
  · omega
  · omega
  · rw [Nat.add_assoc]
    rfl

theorem readU32_shifts : Shifts before.length (readU32 bytes) (readU32 (before ++ bytes)) :=
  (readFixed_shifts 4).andReturn _

theorem readU64_shifts : Shifts before.length (readU64 bytes) (readU64 (before ++ bytes)) :=
  (readFixed_shifts 8).andReturn _

theorem readArray_shifts : Shifts before.length (readArray bytes) (readArray (before ++ bytes)) := by
  apply (readFixed_shifts 16).bind
  intro b
  unfold copyArray
  split_ifs
  · exact Shifts.pure _
  · exact Shifts.reject _

theorem readBytes_shifts : Shifts before.length (readBytes bytes) (readBytes (before ++ bytes)) := by
  apply readU32_shifts.bind
  intro len
  apply (readFixed_shifts len.toNat).bind
  intro data pos
  exact congrArg (fun p => Except.ok (data, p)) (Nat.add_assoc _ _ _)

theorem readOpaque_shifts : Shifts before.length (readOpaque bytes) (readOpaque (before ++ bytes)) := by
  intro pos
  have hread : ∀ bytes' pos', readOpaque bytes' pos' = (do
      let rest ← slice bytes' pos' bytes'.length
      set bytes'.length
      return rest : Reader ScValDecodeError (List UInt8)) pos' := fun _ _ => rfl
  rw [hread, hread, slice, slice, List.length_append, ← List.drop_drop, List.drop_left]
  have hiff : before.length + pos ≤ before.length + bytes.length ∧
      before.length + bytes.length ≤ before.length + bytes.length ↔ pos ≤ bytes.length ∧ bytes.length ≤ bytes.length := by
    omega
  simp only [hiff, Nat.add_sub_add_left]
  split_ifs
  · rfl
  · rfl

theorem readEntry_shifts {n : ℕ} {child child' : Reader ScValDecodeError ScValNode} (h : Shifts n child child') :
    Shifts n (readEntry child) (readEntry child') := h.bind fun key => h.andReturn fun val => (key, val)

theorem decodeVariant_shifts {child child' : Reader ScValDecodeError ScValNode} (h : Shifts before.length child child')
    (tag : UInt32) :
    Shifts before.length (decodeVariant bytes child tag) (decodeVariant (before ++ bytes) child' tag) := by
  unfold decodeVariant
  refine .ite ?void (.ite ?bool (.ite ?u32 (.ite ?i32 (.ite ?u64 (.ite ?i64 (.ite ?timePoint (.ite ?duration
    (.ite ?u128 (.ite ?i128 (.ite ?bytes (.ite ?string (.ite ?symbol (.ite ?vec (.ite ?map ?raw))))))))))))))
  case void => exact Shifts.pure _
  case bool | u32 | i32 => exact readU32_shifts.andReturn _
  case u64 | i64 | timePoint | duration => exact readU64_shifts.andReturn _
  case u128 | i128 => exact readArray_shifts.andReturn _
  case bytes | string | symbol => exact readBytes_shifts.andReturn _
  case vec => exact readU32_shifts.bind fun count => (h.repeatRead count.toNat).andReturn _
  case map => exact readU32_shifts.bind fun count => ((readEntry_shifts h).repeatRead count.toNat).andReturn _
  case raw => exact readOpaque_shifts.andReturn _

theorem decodeNode_shifts (levels : ℕ) :
    Shifts before.length (decodeNode bytes levels) (decodeNode (before ++ bytes) levels) := by
  induction levels with
  | zero => exact Shifts.reject _
  | succ levels ih => exact readU32_shifts.bind fun tag => decodeVariant_shifts ih tag

end Shifting

/-- The tree ends in a raw node that holds `rest` and had `left` levels left. -/
inductive Ragged (rest : List UInt8) (left : ℕ) : ℕ → ScValNode → Prop
  | raw : Ragged rest left left (.opaque_ rest)
  | vec {levels items last} (hlength : items.length + 1 < 2 ^ 32) (each : ∀ item ∈ items, Shallow levels item)
      (tail : Ragged rest left levels last) : Ragged rest left (levels + 1) (.vec (items ++ [last]))
  | map {levels entries key last} (hlength : entries.length + 1 < 2 ^ 32)
      (each : ∀ entry ∈ entries, Shallow levels entry.1 ∧ Shallow levels entry.2) (hkey : Shallow levels key)
      (tail : Ragged rest left levels last) : Ragged rest left (levels + 1) (.map (entries ++ [(key, last)]))

section Shape

variable {bytes : List UInt8} {child : Reader ScValDecodeError ScValNode} {α : Type}

inductive Variant (bytes : List UInt8) (child : Reader ScValDecodeError ScValNode) : ScValNode → ℕ → Prop
  | leaf {t pos'} (h : Modelled t) (hdepth : depth t = 0) : Variant bytes child t pos'
  | vec {items pos'} (count : UInt32) (pos : ℕ) (h : repeatRead child count.toNat pos = .ok (items, pos')) :
      Variant bytes child (.vec items) pos'
  | map {entries pos'} (count : UInt32) (pos : ℕ)
      (h : repeatRead (readEntry child) count.toNat pos = .ok (entries, pos')) : Variant bytes child (.map entries) pos'
  | raw (rest : List UInt8) : Variant bytes child (.opaque_ rest) bytes.length

theorem decodeVariant_returns (tag : UInt32) :
    Returns (Inside bytes) (decodeVariant bytes child tag) (Variant bytes child) := by
  unfold decodeVariant
  refine .ite ?void (.ite ?bool (.ite ?u32 (.ite ?i32 (.ite ?u64 (.ite ?i64 (.ite ?timePoint (.ite ?duration
    (.ite ?u128 (.ite ?i128 (.ite ?bytes (.ite ?string (.ite ?symbol (.ite ?vec (.ite ?map ?raw))))))))))))))
  case void =>
    intro pos t pos' _ hread
    obtain ⟨rfl, -⟩ := Prod.mk.inj (Except.ok.inj hread)
    exact .leaf .void rfl
  case bool => exact .andReturn fun _ _ _ _ _ => .leaf (.bool _) rfl
  case u32 => exact .andReturn fun _ _ _ _ _ => .leaf (.u32 _) rfl
  case i32 => exact .andReturn fun _ _ _ _ _ => .leaf (.i32 _) rfl
  case u64 => exact .andReturn fun _ _ _ _ _ => .leaf (.u64 _) rfl
  case i64 => exact .andReturn fun _ _ _ _ _ => .leaf (.i64 _) rfl
  case timePoint => exact .andReturn fun _ _ _ _ _ => .leaf (.timePoint _) rfl
  case duration => exact .andReturn fun _ _ _ _ _ => .leaf (.duration _) rfl
  case u128 => exact .andReturn fun _ _ _ _ _ => .leaf (.u128 _) rfl
  case i128 => exact .andReturn fun _ _ _ _ _ => .leaf (.i128 _) rfl
  case bytes => exact .andReturn fun _ _ _ _ hread => .leaf (.bytes (readBytes_ok hread).1) rfl
  case string => exact .andReturn fun _ _ _ _ hread => .leaf (.string (readBytes_ok hread).1) rfl
  case symbol => exact .andReturn fun _ _ _ _ hread => .leaf (.symbol (readBytes_ok hread).1) rfl
  case vec =>
    intro pos t pos' _ hread
    obtain ⟨count, mid, -, hrest⟩ := bind_ok hread
    obtain ⟨items, hitems, rfl⟩ := andReturn_ok hrest
    exact .vec count mid hitems
  case map =>
    intro pos t pos' _ hread
    obtain ⟨count, mid, -, hrest⟩ := bind_ok hread
    obtain ⟨entries, hentries, rfl⟩ := andReturn_ok hrest
    exact .map count mid hentries
  case raw =>
    intro pos t pos' hpos hread
    obtain ⟨rest, hrest, rfl⟩ := andReturn_ok hread
    obtain ⟨-, rfl⟩ := readOpaque_ok hpos hrest
    exact .raw rest

theorem repeatRead_shape {read : Reader ScValDecodeError α} {good ragged : α → Prop}
    (h : ∀ pos a pos', read pos = .ok (a, pos') → good a ∨ ragged a ∧ pos' = bytes.length)
    (hstuck : ∀ p, read bytes.length ≠ .ok p) {count pos pos' : ℕ} {items : List α}
    (hread : repeatRead read count pos = .ok (items, pos')) :
    items.length = count ∧ ((∀ item ∈ items, good item) ∨
      (∃ init last, items = init ++ [last] ∧ (∀ item ∈ init, good item) ∧ ragged last) ∧ pos' = bytes.length) := by
  induction count generalizing pos items with
  | zero =>
    obtain ⟨rfl, -⟩ := Prod.mk.inj (Except.ok.inj hread)
    exact ⟨rfl, .inl fun _ hitem => absurd hitem List.not_mem_nil⟩
  | succ count ih =>
    obtain ⟨item, mid, hitem, hrest⟩ := bind_ok hread
    obtain ⟨others, hothers, rfl⟩ := andReturn_ok hrest
    obtain ⟨hlength, hshape⟩ := ih hothers
    refine ⟨congrArg (· + 1) hlength, ?_⟩
    rcases h _ _ _ hitem with hgood | ⟨hragged, rfl⟩
    · rcases hshape with hall | ⟨⟨init, last, rfl, hinit, hlast⟩, hend⟩
      · exact .inl (List.forall_mem_cons.mpr ⟨hgood, hall⟩)
      · exact .inr ⟨⟨item :: init, last, rfl, List.forall_mem_cons.mpr ⟨hgood, hinit⟩, hlast⟩, hend⟩
    · cases count with
      | zero =>
        obtain ⟨rfl, rfl⟩ := Prod.mk.inj (Except.ok.inj hothers)
        exact .inr ⟨⟨[], item, rfl, fun _ hnone => absurd hnone List.not_mem_nil, hragged⟩, rfl⟩
      | succ count =>
        obtain ⟨next, after, hnext, _⟩ := bind_ok hothers
        exact absurd hnext (hstuck _)

theorem readEntry_stuck (levels : ℕ) (p : (ScValNode × ScValNode) × ℕ) :
    readEntry (decodeNode bytes levels) bytes.length ≠ .ok p := by
  intro hread
  obtain ⟨key, mid, hkey, _⟩ := bind_ok hread
  exact decodeNode_stuck levels _ hkey

theorem readEntry_shape {levels : ℕ} {good ragged : ScValNode → Prop}
    (h : ∀ pos t pos', decodeNode bytes levels pos = .ok (t, pos') → good t ∨ ragged t ∧ pos' = bytes.length)
    (pos : ℕ) (entry : ScValNode × ScValNode) (pos' : ℕ)
    (hread : readEntry (decodeNode bytes levels) pos = .ok (entry, pos')) :
    (good entry.1 ∧ good entry.2) ∨ (good entry.1 ∧ ragged entry.2) ∧ pos' = bytes.length := by
  obtain ⟨key, mid, hkey, hrest⟩ := bind_ok hread
  obtain ⟨val, hval, rfl⟩ := andReturn_ok hrest
  rcases h _ _ _ hkey with hgood | ⟨-, rfl⟩
  · rcases h _ _ _ hval with hgood' | ⟨hragged, hend⟩
    · exact .inl ⟨hgood, hgood'⟩
    · exact .inr ⟨⟨hgood, hragged⟩, hend⟩
  · exact absurd hval (decodeNode_stuck levels _)

theorem decodeNode_shape (levels : ℕ) : ∀ pos t pos', decodeNode bytes levels pos = .ok (t, pos') →
    Shallow levels t ∨ (∃ rest left, Ragged rest left levels t) ∧ pos' = bytes.length := by
  induction levels with
  | zero => exact fun _ _ _ h => nomatch h
  | succ levels ih =>
    intro pos t pos' h
    obtain ⟨tag, mid, htag, hvariant⟩ := bind_ok h
    obtain ⟨-, hmid⟩ := readU32_ok htag
    cases decodeVariant_returns tag mid t pos' hmid hvariant with
    | leaf hmodelled hdepth => exact .inl (shallow_leaf hmodelled hdepth)
    | @vec items _ count start hitems =>
      obtain ⟨hlength, hall | ⟨⟨init, last, rfl, hinit, rest, left, hlast⟩, hend⟩⟩ :=
        repeatRead_shape ih (decodeNode_stuck levels) hitems
      · exact .inl (shallow_vec (hlength.trans_lt count.toNat_lt) hall)
      · rw [List.length_append] at hlength
        exact .inr ⟨⟨rest, left, .vec (hlength.trans_lt count.toNat_lt) hinit hlast⟩, hend⟩
    | @map entries _ count start hentries =>
      obtain ⟨hlength, hall | ⟨⟨init, ⟨key, last⟩, rfl, hinit, hkey, rest, left, hlast⟩, hend⟩⟩ :=
        repeatRead_shape (readEntry_shape ih) (readEntry_stuck levels) hentries
      · exact .inl (shallow_map (hlength.trans_lt count.toNat_lt) hall)
      · rw [List.length_append] at hlength
        exact .inr ⟨⟨rest, left, .map (hlength.trans_lt count.toNat_lt) hinit hkey hlast⟩, hend⟩
    | raw rest => exact .inr ⟨⟨rest, levels + 1, .raw⟩, rfl⟩

end Shape

section Reencoding

variable {rest : List UInt8} {left levels : ℕ} {t : ScValNode}

theorem Ragged.not_modelled (h : Ragged rest left levels t) : ¬ Modelled t := by
  intro hmodelled
  induction h with
  | raw => cases hmodelled
  | @vec levels items last hlength each tail ih =>
    cases hmodelled with
    | vec _ hitems => exact ih (hitems last (by simp))
  | @map levels entries key last hlength each hkey tail ih =>
    cases hmodelled with
    | map _ _ hvalues => exact ih (hvalues (key, last) (by simp))

theorem Shallow.mutateNode (h : Shallow levels t) (seed : UInt64) : Shallow levels (mutateNode seed t) :=
  ⟨modelled_mutateNode h.1, by rw [depth_mutateNode]; exact h.2⟩

theorem Ragged.mutateNode (h : Ragged rest left levels t) (seed : UInt64) :
    Ragged rest left levels (mutateNode seed t) := by
  induction h with
  | raw => exact .raw
  | @vec levels items last hlength each tail ih =>
    cases items with
    | nil => exact .vec hlength each ih
    | cons first items =>
      rw [List.forall_mem_cons] at each
      exact @Ragged.vec rest left levels (ScVal.mutateNode seed first :: items) last hlength
        (List.forall_mem_cons.mpr ⟨each.1.mutateNode seed, each.2⟩) tail
  | @map levels entries key last hlength each hkey tail ih =>
    cases entries with
    | nil => exact .map hlength each hkey ih
    | cons entry entries =>
      rw [List.forall_mem_cons] at each
      exact @Ragged.map rest left levels ((entry.1, ScVal.mutateNode seed entry.2) :: entries) key last hlength
        (List.forall_mem_cons.mpr ⟨⟨each.1.1, each.1.2.mutateNode seed⟩, each.2⟩) hkey tail

theorem Shallow.reads {bytes : List UInt8} (h : Shallow levels t) :
    Reads bytes (decodeNode bytes levels) t (encodeNode t) := decodeNode_encodeNode h.1 h.2

def containerFront {α : Type} (tag : UInt32) (encode : α → List UInt8) (items : List α) : List UInt8 :=
  writeU32 tag ++ (writeU32 (UInt32.ofNat (items.length + 1)) ++ items.flatMap encode)

theorem succeeds_container {α : Type} {bytes before after : List UInt8} {tag : UInt32}
    {read : Reader ScValDecodeError α} {f : List α → ScValNode}
    (hvariant : decodeVariant bytes (decodeNode bytes levels) tag =
      (do let count ← readU32 bytes; return f (← repeatRead read count.toNat)))
    {encode : α → List UInt8} {items : List α} (hitems : ∀ item ∈ items, Reads bytes read item (encode item))
    (hlength : items.length + 1 < 2 ^ 32) (hbytes : bytes = before ++ containerFront tag encode items ++ after) :
    Succeeds (decodeNode bytes (levels + 1)) before.length ↔
      Succeeds read (before ++ containerFront tag encode items).length := by
  have htag := readU32_reads tag before (writeU32 (UInt32.ofNat (items.length + 1)) ++ items.flatMap encode ++ after)
    (show bytes = _ by rw [hbytes, containerFront]; simp only [List.append_assoc])
  have hcount := readU32_reads (UInt32.ofNat (items.length + 1)) (before ++ writeU32 tag)
    (items.flatMap encode ++ after) (show bytes = _ by rw [hbytes, containerFront]; simp only [List.append_assoc])
  have hfront := Reads.repeatRead hitems (before ++ writeU32 tag ++ writeU32 (UInt32.ofNat (items.length + 1))) after
    (show bytes = _ by rw [hbytes, containerFront]; simp only [List.append_assoc])
  rw [← List.length_append] at htag hcount hfront
  rw [decodeNode, succeeds_bind_of_ok htag, hvariant, succeeds_bind_of_ok hcount, succeeds_andReturn,
    toNat_length hlength, succeeds_repeatRead_succ hfront, containerFront]
  simp only [List.append_assoc]

theorem Ragged.succeeds_iff (h : Ragged rest left levels t) (before : List UInt8) :
    Succeeds (decodeNode (before ++ encodeNode t) levels) before.length ↔ Succeeds (decodeNode rest left) 0 := by
  induction h generalizing before with
  | raw =>
    rw [encodeNode]
    exact (decodeNode_shifts left).succeeds_iff 0
  | @vec levels items last hlength each tail ih =>
    have hbytes : before ++ encodeNode (.vec (items ++ [last])) =
        before ++ containerFront scvVec encodeNode items ++ encodeNode last := by
      simp [containerFront, encodeNode, encodeItems_eq]
    rw [hbytes, succeeds_container rfl (fun item hitem => (each item hitem).reads) hlength rfl]
    exact ih _
  | @map levels entries key last hlength each hkey tail ih =>
    let encode (entry : ScValNode × ScValNode) : List UInt8 := encodeNode entry.1 ++ encodeNode entry.2
    have hbytes : before ++ encodeNode (.map (entries ++ [(key, last)])) =
        before ++ containerFront scvMap encode entries ++ encodeNode key ++ encodeNode last := by
      simp [encode, containerFront, encodeNode, encodeEntries_eq]
    have hentries : ∀ bytes, ∀ entry ∈ entries, Reads bytes (readEntry (decodeNode bytes levels)) entry (encode entry) :=
      fun _ entry hentry => readEntry_reads (each entry hentry).1.reads (each entry hentry).2.reads
    rw [hbytes, succeeds_container rfl (hentries _) hlength (List.append_assoc _ _ _)]
    have hread := hkey.reads (before ++ containerFront scvMap encode entries) (encodeNode last) rfl
    rw [← List.length_append] at hread
    rw [readEntry, succeeds_bind_of_ok hread, succeeds_andReturn]
    exact ih _

end Reencoding

section Decodability

open Havoc Splices.Splice

variable {payload : List UInt8} {t : ScValNode}

def TailDecodes (t : ScValNode) : Prop :=
  ∀ rest left, Ragged rest left (maxMutationDepth + 1) t → Succeeds (decodeNode rest left) 0

theorem decodes_iff {bytes : List UInt8} :
    (∃ t, decode bytes = .ok t) ↔ Succeeds (decodeNode bytes (maxMutationDepth + 1)) 0 := by
  constructor
  · rintro ⟨t, h⟩
    obtain ⟨pos, hread⟩ := decode_ok h
    exact ⟨_, hread⟩
  · rintro ⟨p, hread⟩
    have hne : bytes ≠ [] := by
      rintro rfl
      exact @decodeNode_stuck [] _ p hread
    refine ⟨p.1, ?_⟩
    rw [decode, if_neg hne, decodeFrom, hread]
    rfl

theorem encode_mutate_decodes_iff (h : decode payload = .ok t) (seed : UInt64) :
    (∃ t', decode (encodeNode (mutateNode seed t)) = .ok t') ↔ TailDecodes t := by
  obtain ⟨pos, hread⟩ := decode_ok h
  rw [decodes_iff]
  rcases decodeNode_shape _ _ _ _ hread with hshallow | ⟨⟨rest, left, hragged⟩, -⟩
  · apply iff_of_true
    · exact ⟨_, (hshallow.mutateNode seed).reads [] [] (List.append_nil _).symm⟩
    · intro rest left hragged
      exact absurd hshallow.1 hragged.not_modelled
  · constructor
    · intro hdecodes rest left hragged
      exact ((hragged.mutateNode seed).succeeds_iff []).mp hdecodes
    · intro htail
      exact ((hragged.mutateNode seed).succeeds_iff []).mpr (htail rest left hragged)

theorem mutated_decodes_iff (h : decode payload = .ok t) (config : HavocConfig) (rng : UInt64) :
    ∃ mutated, (mutateXdrPayload payload ⟨config.maxLen, config.maxGrowth⟩ rng).1 = .ok mutated ∧
      (applyScvalMutate payload config rng).1.run = mutated ∧
      (3 ≤ config.maxGrowth → ((∃ t', decode mutated = .ok t') ↔ TailDecodes t)) ∧
      ((∃ t', decode mutated = .ok t') ↔
        if (encodeNode t).length ≤ max config.maxLen (payload.length + config.maxGrowth) then TailDecodes t
        else ∃ t', decode (byteFlip payload (advanceRng rng)) = .ok t') := by
  obtain ⟨mutated, hmutated⟩ := mutateXdrPayload_ok payload ⟨config.maxLen, config.maxGrowth⟩ rng
  refine ⟨mutated, congrArg Prod.fst hmutated, ?_, ?_, ?_⟩
  · rw [applyScvalMutate_eq hmutated]
    exact run_whole _ _
  · intro hgrowth
    rw [mutateXdrPayload_of_decode h hgrowth] at hmutated
    obtain rfl := Except.ok.inj (Prod.mk.inj hmutated).1
    exact encode_mutate_decodes_iff h _
  · have hsize := @nodeSize_mutateNode (advanceRng rng) t
    unfold nodeSize at hsize
    rw [mutateXdrPayload, h] at hmutated
    simp only [encode, hsize] at hmutated
    split_ifs at hmutated ⊢
    · obtain rfl := Except.ok.inj (Prod.mk.inj hmutated).1
      exact encode_mutate_decodes_iff h _
    · obtain rfl := Except.ok.inj (Prod.mk.inj hmutated).1
      exact Iff.rfl

theorem Ragged.last {rest : List UInt8} {left levels : ℕ} {items : List ScValNode}
    (h : Ragged rest left (levels + 1) (.vec items)) : ∃ last ∈ items.getLast?, Ragged rest left levels last := by
  generalize hitems : ScValNode.vec items = node at h
  cases h with
  | raw => cases hitems
  | @vec _ init last _ _ tail =>
    cases hitems
    exact ⟨last, by simp, tail⟩
  | map => cases hitems

def markedVoid : List UInt8 := [0, 0, 0, 22, 0, 0, 0, 2, 0, 0, 0, 1, 0, 0, 0, 1, 0, 0, 0, 99, 0, 0, 0, 0]

theorem markedVoid_tail : TailDecodes (.vec [.bool true, .opaque_ [0, 0, 0, 0]]) := by
  intro rest left hragged
  obtain ⟨last, hlast, htail⟩ := hragged.last
  cases hlast
  cases htail
  exact ⟨_, rfl⟩

theorem mutated_markedVoid_decodes :
    ∃ mutated, (mutateXdrPayload markedVoid ⟨4096, 32⟩ 7).1 = .ok mutated ∧
      mutated = [0, 0, 0, 22, 0, 0, 0, 2, 0, 0, 0, 1, 0, 0, 0, 0, 0, 0, 0, 0] ∧ ∃ t, decode mutated = .ok t := by
  obtain ⟨mutated, hmutated, -, hdecodes, -⟩ :=
    @mutated_decodes_iff markedVoid (.vec [.bool true, .opaque_ [0, 0, 0, 0]]) rfl .default 7
  refine ⟨mutated, hmutated, ?_, (hdecodes (by decide)).mpr markedVoid_tail⟩
  have hbytes : (mutateXdrPayload markedVoid ⟨4096, 32⟩ 7).1 =
      .ok [0, 0, 0, 22, 0, 0, 0, 2, 0, 0, 0, 1, 0, 0, 0, 0, 0, 0, 0, 0] := rfl
  exact Except.ok.inj (hmutated.symm.trans hbytes)

theorem unknown_discriminant_dropped :
    decode [0, 0, 0, 99] = .ok (.opaque_ []) ∧ (mutateXdrPayload [0, 0, 0, 99] ⟨4096, 32⟩ 7).1 = .ok [] ∧
      ¬ ∃ t, decode [] = .ok t := by
  -- an unknown discriminant with nothing behind it is written back as no bytes at all
  refine ⟨rfl, rfl, ?_⟩
  rintro ⟨t, h⟩
  cases h

end Decodability

end CrashLab.ScVal
