import CrashLab.ScVal

namespace CrashLab.ScVal

open Cursor

section Primitives

variable {bytes : List UInt8}

theorem readFixed_eq (n pos : ℕ) : readFixed bytes n pos =
    if bytes.length < pos + n then .error (.reject (.decode "unexpected end of input"))
    else .ok ((bytes.drop pos).take n, pos + n) := by
  let rest : Reader ScValDecodeError (List UInt8) := do
    let v ← slice bytes pos (pos + n)
    set (pos + n)
    return v
  have hread : readFixed bytes n pos = (if bytes.length < pos + n then
      (do throw (.reject (.decode "unexpected end of input")); rest) else rest) pos := rfl
  rw [hread]
  split_ifs with h
  · rfl
  · have hin : pos ≤ pos + n ∧ pos + n ≤ bytes.length := by omega
    change (slice bytes pos (pos + n) >>= _) pos = _
    rw [slice, if_pos hin, Nat.add_sub_cancel_left]
    rfl

theorem readFixed_reads {chunk : List UInt8} {n : ℕ} (h : chunk.length = n) :
    Reads bytes (readFixed bytes n) chunk chunk := by
  intro before after hbytes
  have hlen : ¬bytes.length < before.length + n := by
    rw [hbytes, List.length_append, List.length_append, h]
    omega
  rw [readFixed_eq, if_neg hlen, hbytes, List.append_assoc, List.drop_left, ← h, List.take_left]

theorem readU32_reads (v : UInt32) : Reads bytes (readU32 bytes) v (writeU32 v) := by
  have hvalue : UInt32.ofNat (beValue (writeU32 v)) = v := by
    rw [writeU32, beValue_beBytes, Nat.mod_eq_of_lt (lt_of_lt_of_eq v.toNat_lt (by norm_num)), UInt32.ofNat_toNat]
  have hread := (@readFixed_reads bytes _ _ (length_beBytes 4 v.toNat)).andReturn
    (f := fun buf => UInt32.ofNat (beValue buf))
  rwa [← writeU32, hvalue] at hread

theorem readU64_reads (v : UInt64) : Reads bytes (readU64 bytes) v (writeU64 v) := by
  have hvalue : UInt64.ofNat (beValue (writeU64 v)) = v := by
    rw [writeU64, beValue_beBytes, Nat.mod_eq_of_lt (lt_of_lt_of_eq v.toNat_lt (by norm_num)), UInt64.ofNat_toNat]
  have hread := (@readFixed_reads bytes _ _ (length_beBytes 8 v.toNat)).andReturn
    (f := fun buf => UInt64.ofNat (beValue buf))
  rwa [← writeU64, hvalue] at hread

theorem readArray_reads (b : Bytes16) : Reads bytes (readArray bytes) b b.bytes := by
  have hcopy : Reads bytes (copyArray b.bytes) b [] := by
    rw [copyArray, dif_pos b.length_eq]
    exact Reads.pure b
  have hread := (readFixed_reads b.length_eq).bind hcopy
  rwa [List.append_nil] at hread

theorem toNat_length {n : ℕ} (h : n < 2 ^ 32) : (UInt32.ofNat n).toNat = n := by
  rw [UInt32.toNat_ofNat', Nat.mod_eq_of_lt h]

theorem readBytes_reads {data : List UInt8} (h : data.length < 2 ^ 32) :
    Reads bytes (readBytes bytes) data (writeBytes data) := by
  have hpad : (List.replicate (padding data.length) (0 : UInt8)).length = padding data.length := List.length_replicate
  have hskip : Reads bytes (do modify (· + padding data.length); return data : Reader ScValDecodeError _) data
      (List.replicate (padding data.length) 0) := by
    rw [← List.append_nil (List.replicate _ _)]
    exact (Reads.modify _ hpad).bind (Reads.pure data)
  rw [writeBytes, List.append_assoc]
  refine (readU32_reads _).bind ?_
  rw [toNat_length h]
  exact (readFixed_reads rfl).bind hskip

end Primitives

inductive Modelled : ScValNode → Prop
  | void : Modelled .void
  | bool (v) : Modelled (.bool v)
  | u32 (v) : Modelled (.u32 v)
  | i32 (v) : Modelled (.i32 v)
  | u64 (v) : Modelled (.u64 v)
  | i64 (v) : Modelled (.i64 v)
  | timePoint (v) : Modelled (.timePoint v)
  | duration (v) : Modelled (.duration v)
  | u128 (b) : Modelled (.u128 b)
  | i128 (b) : Modelled (.i128 b)
  | bytes {data} (h : data.length < 2 ^ 32) : Modelled (.bytes data)
  | string {data} (h : data.length < 2 ^ 32) : Modelled (.string data)
  | symbol {data} (h : data.length < 2 ^ 32) : Modelled (.symbol data)
  | vec {items} (h : items.length < 2 ^ 32) (each : ∀ item ∈ items, Modelled item) : Modelled (.vec items)
  | map {entries} (h : entries.length < 2 ^ 32) (keys : ∀ entry ∈ entries, Modelled entry.1)
      (values : ∀ entry ∈ entries, Modelled entry.2) : Modelled (.map entries)

mutual

def depth : ScValNode → ℕ
  | .vec items => itemsDepth items
  | .map entries => entriesDepth entries
  | _ => 0

def itemsDepth : List ScValNode → ℕ
  | [] => 0
  | item :: items => max (depth item + 1) (itemsDepth items)

def entriesDepth : List (ScValNode × ScValNode) → ℕ
  | [] => 0
  | (key, val) :: entries => max (max (depth key + 1) (depth val + 1)) (entriesDepth entries)

end

theorem depth_lt_itemsDepth {items : List ScValNode} {item : ScValNode} (h : item ∈ items) :
    depth item < itemsDepth items := by
  induction items with
  | nil => exact absurd h List.not_mem_nil
  | cons other items ih =>
    rw [itemsDepth]
    rcases List.mem_cons.mp h with rfl | h
    · omega
    · have := ih h
      omega

theorem depth_lt_entriesDepth {entries : List (ScValNode × ScValNode)} {entry : ScValNode × ScValNode}
    (h : entry ∈ entries) : depth entry.1 < entriesDepth entries ∧ depth entry.2 < entriesDepth entries := by
  induction entries with
  | nil => exact absurd h List.not_mem_nil
  | cons other entries ih =>
    rw [entriesDepth]
    rcases List.mem_cons.mp h with rfl | h
    · omega
    · have := ih h
      omega

theorem encodeItems_eq (items : List ScValNode) : encodeItems items = items.flatMap encodeNode := by
  induction items with
  | nil => rw [encodeItems, List.flatMap_nil]
  | cons item items ih => rw [encodeItems, ih, List.flatMap_cons]

theorem encodeEntries_eq (entries : List (ScValNode × ScValNode)) :
    encodeEntries entries = entries.flatMap fun entry => encodeNode entry.1 ++ encodeNode entry.2 := by
  induction entries with
  | nil => rw [encodeEntries, List.flatMap_nil]
  | cons entry entries ih => rw [encodeEntries, ih, List.flatMap_cons]

section RoundTrip

variable {bytes : List UInt8}

theorem decodeNode_reads {n levels : ℕ} {tag : UInt32} {t : ScValNode} {chunk : List UInt8} (hlevels : n < levels)
    (h : ∀ child, child + 1 = levels → Reads bytes (decodeVariant bytes (decodeNode bytes child) tag) t chunk) :
    Reads bytes (decodeNode bytes levels) t (writeU32 tag ++ chunk) := by
  cases levels with
  | zero => exact absurd hlevels (Nat.not_lt_zero n)
  | succ child => exact (readU32_reads tag).bind (h child rfl)

theorem readBool_reads (v : Bool) :
    Reads bytes (do return .bool ((← readU32 bytes) != 0)) (ScValNode.bool v) (writeU32 (if v then 1 else 0)) := by
  cases v with
  | false => exact (readU32_reads 0).andReturn
  | true => exact (readU32_reads 1).andReturn

theorem readCount_reads {α : Type} {read : Reader ScValDecodeError α} {encode : α → List UInt8} {items : List α}
    (f : List α → ScValNode) (hlength : items.length < 2 ^ 32)
    (h : ∀ item ∈ items, Reads bytes read item (encode item)) :
    Reads bytes (do let count ← readU32 bytes; return f (← repeatRead read count.toNat)) (f items)
      (writeU32 (UInt32.ofNat items.length) ++ items.flatMap encode) := by
  refine (readU32_reads _).bind ?_
  rw [toNat_length hlength]
  exact (Reads.repeatRead h).andReturn

theorem readEntry_reads {read : Reader ScValDecodeError ScValNode} {entry : ScValNode × ScValNode}
    (hkey : Reads bytes read entry.1 (encodeNode entry.1)) (hval : Reads bytes read entry.2 (encodeNode entry.2)) :
    Reads bytes (readEntry read) entry (encodeNode entry.1 ++ encodeNode entry.2) :=
  hkey.bind hval.andReturn

theorem decodeNode_encodeNode {t : ScValNode} (h : Modelled t) {levels : ℕ} (hdepth : depth t < levels) :
    Reads bytes (decodeNode bytes levels) t (encodeNode t) := by
  induction h generalizing levels with
  | void =>
    rw [encodeNode, ← List.append_nil (writeU32 _)]
    exact decodeNode_reads hdepth fun _ _ => Reads.pure _
  | bool v =>
    rw [encodeNode]
    exact decodeNode_reads hdepth fun _ _ => readBool_reads v
  | u32 v =>
    rw [encodeNode]
    exact decodeNode_reads hdepth fun _ _ => (readU32_reads v).andReturn
  | i32 v =>
    rw [encodeNode]
    have hread := (@readU32_reads bytes v.toUInt32).andReturn (f := fun raw => ScValNode.i32 raw.toInt32)
    rw [Int32.toInt32_toUInt32] at hread
    exact decodeNode_reads hdepth fun _ _ => hread
  | u64 v =>
    rw [encodeNode]
    exact decodeNode_reads hdepth fun _ _ => (readU64_reads v).andReturn
  | i64 v =>
    rw [encodeNode]
    have hread := (@readU64_reads bytes v.toUInt64).andReturn (f := fun raw => ScValNode.i64 raw.toInt64)
    rw [Int64.toInt64_toUInt64] at hread
    exact decodeNode_reads hdepth fun _ _ => hread
  | timePoint v =>
    rw [encodeNode]
    exact decodeNode_reads hdepth fun _ _ => (readU64_reads v).andReturn
  | duration v =>
    rw [encodeNode]
    exact decodeNode_reads hdepth fun _ _ => (readU64_reads v).andReturn
  | u128 b =>
    rw [encodeNode]
    exact decodeNode_reads hdepth fun _ _ => (readArray_reads b).andReturn
  | i128 b =>
    rw [encodeNode]
    exact decodeNode_reads hdepth fun _ _ => (readArray_reads b).andReturn
  | bytes hlength =>
    rw [encodeNode]
    exact decodeNode_reads hdepth fun _ _ => (readBytes_reads hlength).andReturn
  | string hlength =>
    rw [encodeNode]
    exact decodeNode_reads hdepth fun _ _ => (readBytes_reads hlength).andReturn
  | symbol hlength =>
    rw [encodeNode]
    exact decodeNode_reads hdepth fun _ _ => (readBytes_reads hlength).andReturn
  | vec hlength _ ih =>
    rw [encodeNode, encodeItems_eq]
    rw [depth] at hdepth
    refine decodeNode_reads hdepth fun child hchild => readCount_reads ScValNode.vec hlength ?_
    intro item hitem
    have hlt := depth_lt_itemsDepth hitem
    exact ih item hitem (by omega)
  | map hlength _ _ ihkey ihval =>
    rw [encodeNode, encodeEntries_eq]
    rw [depth] at hdepth
    refine decodeNode_reads hdepth fun child hchild => readCount_reads ScValNode.map hlength ?_
    intro entry hentry
    have hlt := depth_lt_entriesDepth hentry
    exact readEntry_reads (ihkey entry hentry (by omega)) (ihval entry hentry (by omega))

theorem encodeNode_ne_nil {t : ScValNode} (h : Modelled t) : encodeNode t ≠ [] := by
  cases h <;> exact List.cons_ne_nil _ _

end RoundTrip

section Totality

variable {bytes : List UInt8}

def Inside (bytes : List UInt8) (pos : ℕ) : Prop := pos ≤ bytes.length

def Near (bytes : List UInt8) (pos : ℕ) : Prop := pos ≤ bytes.length + 3

theorem Inside.near {pos : ℕ} (h : Inside bytes pos) : Near bytes pos := Nat.le_add_right_of_le h

theorem readFixed_safe {pre : ℕ → Prop} (n : ℕ) :
    Safe pre (readFixed bytes n) fun v pos => v.length = n ∧ Inside bytes pos := by
  intro pos _
  rw [readFixed_eq]
  split_ifs with h
  · trivial
  · have hlength : ((bytes.drop pos).take n).length = n := by
      rw [List.length_take, List.length_drop]
      omega
    exact ⟨hlength, not_lt.mp h⟩

theorem readU32_safe {pre : ℕ → Prop} : Safe pre (readU32 bytes) fun _ => Inside bytes :=
  (readFixed_safe 4).bind fun _ => Safe.pure fun _ h => h.2

theorem readU64_safe {pre : ℕ → Prop} : Safe pre (readU64 bytes) fun _ => Inside bytes :=
  (readFixed_safe 8).bind fun _ => Safe.pure fun _ h => h.2

theorem readArray_safe {pre : ℕ → Prop} : Safe pre (readArray bytes) fun _ => Inside bytes := by
  apply (readFixed_safe 16).bind
  rintro b pos ⟨hb, hpos⟩
  rw [copyArray, dif_pos hb]
  exact hpos

theorem readBytes_safe {pre : ℕ → Prop} : Safe pre (readBytes bytes) fun _ => Near bytes := by
  apply readU32_safe.bind
  intro len
  apply (readFixed_safe len.toNat).bind
  rintro data pos ⟨_, hpos⟩
  change pos + padding len.toNat ≤ bytes.length + 3
  unfold Inside at hpos
  unfold padding
  omega

theorem readOpaque_safe : Safe (Inside bytes) (readOpaque bytes) fun _ => Near bytes := by
  intro pos hpos
  have hread : readOpaque bytes pos = (do
      let rest ← slice bytes pos bytes.length
      set bytes.length
      return rest : Reader ScValDecodeError (List UInt8)) pos := rfl
  rw [hread, slice, if_pos ⟨hpos, le_rfl⟩]
  exact Nat.le_add_right _ _

theorem near_andReturn {α : Type} {pre : ℕ → Prop} {read : Reader ScValDecodeError α} (f : α → ScValNode)
    (h : Safe pre read fun _ => Inside bytes) : Safe pre (do return f (← read)) fun _ => Near bytes :=
  h.bind fun _ => Safe.pure fun _ => Inside.near

theorem readCount_safe {α : Type} {pre : ℕ → Prop} {read : Reader ScValDecodeError α} (f : List α → ScValNode)
    (h : Safe (Near bytes) read fun _ => Near bytes) :
    Safe pre (do let count ← readU32 bytes; return f (← repeatRead read count.toNat)) fun _ => Near bytes :=
  readU32_safe.bind fun count => ((h.repeatRead count.toNat).of_pre fun _ => Inside.near).andReturn f

theorem readEntry_safe {read : Reader ScValDecodeError ScValNode}
    (h : Safe (Near bytes) read fun _ => Near bytes) : Safe (Near bytes) (readEntry read) fun _ => Near bytes :=
  h.bind fun key => h.andReturn fun val => (key, val)

theorem decodeVariant_safe {child : Reader ScValDecodeError ScValNode}
    (h : Safe (Near bytes) child fun _ => Near bytes) (tag : UInt32) :
    Safe (Inside bytes) (decodeVariant bytes child tag) fun _ => Near bytes := by
  unfold decodeVariant
  refine Safe.ite ?void (Safe.ite ?bool (Safe.ite ?u32 (Safe.ite ?i32 (Safe.ite ?u64 (Safe.ite ?i64
    (Safe.ite ?timePoint (Safe.ite ?duration (Safe.ite ?u128 (Safe.ite ?i128 (Safe.ite ?bytes
    (Safe.ite ?string (Safe.ite ?symbol (Safe.ite ?vec (Safe.ite ?map ?raw))))))))))))))
  case void => exact Safe.pure fun _ => Inside.near
  case bool => exact near_andReturn _ readU32_safe
  case u32 => exact near_andReturn _ readU32_safe
  case i32 => exact near_andReturn _ readU32_safe
  case u64 => exact near_andReturn _ readU64_safe
  case i64 => exact near_andReturn _ readU64_safe
  case timePoint => exact near_andReturn _ readU64_safe
  case duration => exact near_andReturn _ readU64_safe
  case u128 => exact near_andReturn _ readArray_safe
  case i128 => exact near_andReturn _ readArray_safe
  case bytes => exact readBytes_safe.andReturn _
  case string => exact readBytes_safe.andReturn _
  case symbol => exact readBytes_safe.andReturn _
  case vec => exact readCount_safe ScValNode.vec h
  case map => exact readCount_safe ScValNode.map (readEntry_safe h)
  case raw => exact readOpaque_safe.andReturn _

theorem decodeNode_safe (levels : ℕ) : Safe (Near bytes) (decodeNode bytes levels) fun _ => Near bytes := by
  induction levels with
  | zero => exact Safe.reject _
  | succ levels ih => exact readU32_safe.bind fun tag => decodeVariant_safe ih tag

end Totality

theorem codec_round_trip_and_total :
    (∀ t, Modelled t → depth t ≤ maxMutationDepth →
      ∃ bytes, encode t = .ok bytes ∧ decodeFrom bytes 0 = .ok (t, bytes.length) ∧ decode bytes = .ok t) ∧
    ∀ bytes,
      ((∃ t, decode bytes = .ok t) ∨ ∃ message, decode bytes = .error (.reject message)) ∧
        ∀ t pos, decodeFrom bytes 0 = .ok (t, pos) → pos ≤ bytes.length + 3 := by
  constructor
  · intro t ht hdepth
    have hread := @decodeNode_encodeNode (encodeNode t) t ht _ (Nat.lt_succ_of_le hdepth) [] [] (by simp)
    rw [List.length_nil, Nat.zero_add] at hread
    refine ⟨encodeNode t, rfl, hread, ?_⟩
    rw [decode, if_neg (encodeNode_ne_nil ht), decodeFrom, hread]
    rfl
  · intro bytes
    have hsafe := @decodeNode_safe bytes (maxMutationDepth + 1) 0 (Nat.zero_le _)
    rw [← decodeFrom] at hsafe
    constructor
    · unfold decode
      split_ifs with hempty
      · exact Or.inr ⟨_, rfl⟩
      · cases hread : decodeFrom bytes 0 with
        | ok p => exact Or.inl ⟨p.1, rfl⟩
        | error fault =>
          rw [hread] at hsafe
          cases fault with
          | reject reason => exact Or.inr ⟨reason, rfl⟩
          | outOfRange => exact hsafe.elim
    · intro t pos hread
      rw [hread] at hsafe
      exact hsafe

end CrashLab.ScVal
