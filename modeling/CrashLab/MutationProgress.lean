import CrashLab.Draws
import CrashLab.Havoc
import CrashLab.ScValCanonical

namespace CrashLab

namespace Havoc

open Draws ScVal Splices Splice Taxonomy

section Draws

theorem nextIndex_lt {n : ℕ} (h : 0 < n) : Yields (nextIndex n) (· < n) := ⟨fun _ => Nat.mod_lt _ h⟩

theorem nextRange_between {lo hi : ℕ} : Yields (nextRange lo hi) fun n => lo ≤ n ∧ n ≤ max lo hi := by
  apply Yields.ite
  · intro _
    exact Yields.pure ⟨le_rfl, le_max_left _ _⟩
  · intro hlt
    apply (nextIndex_lt (Nat.succ_pos (hi - lo))).bind
    intro i hi
    exact Yields.pure ⟨Nat.le_add_right _ _, by omega⟩

theorem nextBytes_length (n : ℕ) : Yields (nextBytes n) (·.length = n) := by
  induction n with
  | zero => exact Yields.pure rfl
  | succ n ih =>
    apply Yields.bindAny
    intro b
    apply ih.bind
    intro bs hbs
    exact Yields.pure (congrArg (· + 1) hbs)

theorem insertedData_length (n : ℕ) : Yields (insertedData n) (·.length = n) := by
  apply Yields.bindAny
  intro bit
  apply Yields.ite
  · intro _
    apply Yields.bindAny
    exact fun b => Yields.pure List.length_replicate
  · exact fun _ => nextBytes_length n

theorem insertPosition_le (payload : List UInt8) : Yields (insertPosition payload) (· ≤ payload.length) := by
  apply Yields.ite
  · exact fun _ => Yields.pure (Nat.zero_le _)
  · intro _
    exact (nextIndex_lt (Nat.succ_pos payload.length)).mono fun _ => Nat.le_of_lt_succ

theorem xor_ne {b mask : UInt8} (h : mask ≠ 0) : b ^^^ mask ≠ b := by
  intro hb
  apply h
  apply (UInt8.xor_right_inj b).mp
  rw [hb, UInt8.xor_zero]

theorem flippedByte_ne (old : UInt8) : Yields (flippedByte old) (· ≠ old) := by
  apply Yields.bindAny
  intro kind
  split
  · apply (nextIndex_lt (by norm_num)).bind
    intro bit hbit
    apply Yields.pure
    apply xor_ne
    interval_cases bit <;> decide
  · exact Yields.pure (xor_ne (by decide))
  · apply Yields.bindAny
    intro bit
    apply Yields.pure
    cases bit <;> simp
  · apply Yields.bindAny
    intro b
    apply Yields.pure
    split_ifs with hb
    · exact xor_ne (by decide)
    · exact hb

theorem otherValidTag_ne (currentTag : UInt8) : Yields (otherValidTag currentTag) (· ≠ currentTag) := by
  apply (nextIndex_lt (by decide : 0 < validTags.length)).bind
  intro idx hidx
  apply Yields.pure
  change idx < 4 at hidx
  split_ifs with htag
  · rw [← htag]
    interval_cases idx <;> decide
  · exact htag

end Draws

structure Moves (config : HavocConfig) (payload : List UInt8) (edit : Edit) : Prop where
  inside : edit.Inside
  changes : edit.run ≠ payload
  nonempty : edit.run ≠ []
  room : edit.run.length ≤ config.maxLen ∨ payload.length ≠ config.maxLen

section Edits

variable {payload : List UInt8} {config : HavocConfig}

theorem Moves.insert {pos : ℕ} {data : List UInt8} (hpos : pos ≤ payload.length) (hdata : data ≠ [])
    (hlength : payload.length < config.maxLen) : Moves config payload ⟨payload, insertAt pos data⟩ := by
  have hinside : (insertAt pos data).Inside payload := hpos
  have hrun : (Edit.run ⟨payload, insertAt pos data⟩).length = payload.length + data.length := length_run hinside
  have hpositive := List.length_pos_of_ne_nil hdata
  refine ⟨hinside, ?_, ?_, Or.inr hlength.ne⟩
  · intro hsame
    rw [hsame] at hrun
    omega
  · rw [← List.length_pos_iff, hrun]
    omega

theorem Moves.delete {pos delLen : ℕ} (hpos : pos + delLen ≤ payload.length) (hdel : 0 < delLen)
    (hleft : delLen < payload.length) : Moves config payload ⟨payload, removeAt pos delLen⟩ := by
  have hinside : (removeAt pos delLen).Inside payload := hpos
  have hrun : (Edit.run ⟨payload, removeAt pos delLen⟩).length + delLen = payload.length := length_run hinside
  refine ⟨hinside, ?_, ?_, ?_⟩
  · intro hsame
    rw [hsame] at hrun
    omega
  · rw [← List.length_pos_iff]
    omega
  · omega

theorem Moves.overwrite {edit : Edit} (hinside : edit.Inside) (hchanges : edit.run ≠ payload)
    (hlength : edit.run.length = payload.length) (hpayload : payload ≠ []) : Moves config payload edit := by
  refine ⟨hinside, hchanges, ?_, ?_⟩
  · rw [← List.length_pos_iff, hlength]
    exact List.length_pos_of_ne_nil hpayload
  · omega

theorem Moves.put {idx : ℕ} {b : UInt8} (hidx : idx < payload.length) (hb : payload[idx]? ≠ some b) :
    Moves config payload ⟨payload, putAt idx b⟩ := by
  have hinside : (putAt idx b).Inside payload := hidx
  apply Moves.overwrite
  · exact hinside
  · exact fun hsame => hb ((run_putAt_eq_iff hidx).mp hsame)
  · have hrun : (Edit.run ⟨payload, putAt idx b⟩).length + 1 = payload.length + 1 := length_run hinside
    omega
  · exact List.length_pos_iff.mp (Nat.zero_lt_of_lt hidx)

theorem applyByteFlip_spec (payload : List UInt8) : Yields (applyByteFlip payload) fun edit =>
    (payload = [] ∧ ∃ b, edit = ⟨payload, insertAt 0 [b]⟩) ∨
      ∃ idx b, idx < payload.length ∧ payload[idx]? ≠ some b ∧ edit = ⟨payload, putAt idx b⟩ := by
  apply Yields.ite
  · intro hpayload
    apply Yields.bindAny
    intro b
    exact Yields.pure (Or.inl ⟨hpayload, b, rfl⟩)
  · intro hpayload
    apply (nextIndex_lt (List.length_pos_of_ne_nil hpayload)).bind
    intro idx hidx
    apply (flippedByte_ne _).bind
    intro b hb
    rw [List.getD_eq_getElem?_getD, List.getElem?_eq_getElem hidx, Option.getD_some] at hb
    apply Yields.pure
    refine Or.inr ⟨idx, b, hidx, ?_, rfl⟩
    rw [List.getElem?_eq_getElem hidx]
    exact fun hsame => hb (Option.some_inj.mp hsame).symm

theorem applyByteFlip_moves (hmax : 2 < config.maxLen) : Yields (applyByteFlip payload) (Moves config payload) := by
  apply (applyByteFlip_spec payload).mono
  rintro edit (⟨rfl, b, rfl⟩ | ⟨idx, b, hidx, hb, rfl⟩)
  · exact Moves.insert (Nat.zero_le _) (List.cons_ne_nil _ _) (Nat.zero_lt_of_lt hmax)
  · exact Moves.put hidx hb

theorem applyBlockInsert_moves (hmax : 2 < config.maxLen) :
    Yields (applyBlockInsert payload config) (Moves config payload) := by
  apply Yields.ite
  · exact fun _ => applyByteFlip_moves hmax
  · intro hlength
    apply nextRange_between.bind
    intro insLen hinsLen
    apply (insertPosition_le payload).bind
    intro pos hpos
    apply (insertedData_length insLen).bind
    intro data hdata
    apply Yields.pure
    apply Moves.insert hpos
    · rw [← List.length_pos_iff]
      omega
    · omega

theorem applyBlockDelete_moves (hmin : config.minLen = 1) (hmax : 2 < config.maxLen) :
    Yields (applyBlockDelete payload config) (Moves config payload) := by
  apply Yields.ite
  · exact fun _ => applyBlockInsert_moves hmax
  · intro hlength
    apply nextRange_between.bind
    intro delLen hdelLen
    apply (nextIndex_lt (Nat.succ_pos (payload.length - delLen))).bind
    intro pos hpos
    apply Yields.pure
    apply Moves.delete
    · omega
    · omega
    · omega

theorem applyChunkRepeat_moves (hmax : 2 < config.maxLen) :
    Yields (applyChunkRepeat payload config) (Moves config payload) := by
  apply Yields.ite
  · exact fun _ => applyBlockInsert_moves hmax
  · intro hpayload
    rw [not_or, not_le] at hpayload
    have hpositive := List.length_pos_of_ne_nil hpayload.1
    apply nextRange_between.bind
    intro chunkLen hchunkLen
    apply (nextIndex_lt (Nat.succ_pos (payload.length - chunkLen))).bind
    intro pos hpos
    apply nextRange_between.bind
    intro count hcount
    apply Yields.pure
    apply Moves.insert
    · omega
    · rw [← List.length_pos_iff, List.length_flatten, List.map_replicate, List.sum_replicate, List.length_take,
        List.length_drop, smul_eq_mul]
      apply Nat.mul_pos
      · omega
      · omega
    · exact hpayload.2

theorem copyTarget_le {len copyLen src dst : ℕ} (hdst : dst + copyLen ≤ len) :
    copyTarget len copyLen src dst + copyLen ≤ len := by
  unfold copyTarget
  split_ifs
  · omega
  · omega
  · exact hdst
  · exact hdst

theorem length_copyBlock {copyLen src dst : ℕ} (hsrc : src + copyLen ≤ payload.length)
    (hdst : dst + copyLen ≤ payload.length) : (copyBlock payload copyLen src dst).length = payload.length := by
  have hrun : (copyBlock payload copyLen src dst).length + copyLen =
      payload.length + ((payload.drop src).take copyLen).length := length_run hdst
  rw [List.length_take, List.length_drop] at hrun
  omega

theorem applyBlockCopy_flips (h : payload.length < 2) : applyBlockCopy payload config = applyByteFlip payload :=
  if_pos h

theorem markedTag_lt {pos : ℕ} (h : markedTag payload = some pos) : pos + 1 < payload.length := by
  unfold markedTag at h
  split at h
  · split_ifs at h with hpos
    rwa [← Option.some_inj.mp h]
  · exact nomatch h

theorem head_ne_enumMarker (h : markedTag payload = none) (hlength : 2 ≤ payload.length) :
    payload[0]? ≠ some enumMarker := by
  intro hhead
  have hfirst : payload.findIdx? (· == enumMarker) = some 0 := by
    cases payload with
    | nil => exact nomatch hhead
    | cons b bs =>
      rw [List.getElem?_cons_zero, Option.some_inj] at hhead
      simp [List.findIdx?_cons, hhead]
  have htag : 0 + 1 < payload.length := by omega
  rw [markedTag, hfirst] at h
  exact nomatch (if_pos htag).symm.trans h

theorem insertTag_moves (h : markedTag payload = none) (hmax : 2 < config.maxLen) :
    Yields (insertTag payload config) (Moves config payload) := by
  apply Yields.bindAny
  intro tag
  apply Yields.ite
  · intro hroom
    apply (insertPosition_le payload).bind
    intro pos hpos
    apply Yields.pure
    exact Moves.insert hpos (List.cons_ne_nil _ _) (by omega)
  · intro hroom
    have hlength : 2 ≤ payload.length := by omega
    rw [if_pos hlength]
    apply Yields.pure
    have hinside : (Splice.mk 0 2 [enumMarker, tag]).Inside payload := hlength
    apply Moves.overwrite
    · exact hinside
    · intro hsame
      apply head_ne_enumMarker h hlength
      rw [← hsame]
      rfl
    · exact Nat.add_right_cancel (length_run hinside)
    · rintro rfl
      exact nomatch hlength

theorem run_replaced (payload mutated : List UInt8) :
    Edit.run ⟨payload, ⟨0, payload.length, mutated⟩⟩ = mutated := run_whole payload mutated

theorem applyScvalMutate_eq {mutated : List UInt8} {rng rng' : UInt64}
    (h : mutateXdrPayload payload ⟨config.maxLen, config.maxGrowth⟩ rng = (.ok mutated, rng')) :
    applyScvalMutate payload config rng = (⟨payload, ⟨0, payload.length, mutated⟩⟩, rng') := by
  unfold applyScvalMutate
  change StateT.bind _ _ rng = _
  simp only [StateT.bind, get, getThe, MonadStateOf.get, StateT.get, bind, pure, h]
  rfl

end Edits

section Bounds

variable {payload : List UInt8} {config : HavocConfig}

theorem enforceBounds_result (hmin : config.minLen = 1) (rng : UInt64) :
    (enforceBounds payload config rng).1 =
      if payload = [] then [(nextByte rng).1] else payload.take config.maxLen := by
  unfold enforceBounds
  rw [hmin]
  by_cases hnil : payload = []
  · rw [hnil]
    rfl
  · have hlength : ¬payload.length < 1 := not_lt.mpr (List.length_pos_of_ne_nil hnil)
    rw [if_neg hlength, if_neg hnil]
    split_ifs with hlong
    · rfl
    · exact (List.take_of_length_le (not_lt.mp hlong)).symm

theorem Moves.enforceBounds_ne {edit : Edit} (h : Moves config payload edit) (hmin : config.minLen = 1)
    (rng : UInt64) : (enforceBounds edit.run config rng).1 ≠ payload := by
  rw [enforceBounds_result hmin, if_neg h.nonempty]
  intro hsame
  rcases h.room with hshort | hlength
  · exact h.changes ((List.take_of_length_le hshort).symm.trans hsame)
  · have htake := congrArg List.length hsame
    rw [List.length_take] at htake
    rw [List.take_of_length_le (by omega)] at hsame
    exact h.changes hsame

end Bounds

section Leaves

def leafEdit (seed : UInt64) : ScValNode → Splice UInt8
  | .bool v => ⟨4, 4, writeU32 (if v then 0 else 1)⟩
  | .u32 v => ⟨4, 4, writeU32 (v + 1)⟩
  | .i32 v => ⟨4, 4, writeU32 (v - 1).toUInt32⟩
  | .u64 v => ⟨4, 8, writeU64 (v + seed)⟩
  | .i64 v => ⟨4, 8, writeU64 (v - seed.toInt64).toUInt64⟩
  | .timePoint v => ⟨4, 8, writeU64 (v + 1)⟩
  | .duration v => ⟨4, 8, writeU64 (v + 1)⟩
  | .u128 b => ⟨4, 16, b.bytes.modifyHead (· + 1)⟩
  | .i128 b => ⟨4, 16, b.bytes.modifyHead (· - 1)⟩
  | .bytes data => ⟨8, data.length, bumpLast data⟩
  | .string data => ⟨8, data.length, bumpLast data⟩
  | .symbol data => ⟨8, data.length, bumpLast data⟩
  | .vec (first :: _) => (leafEdit seed first).shift 8
  | .map ((key, val) :: _) => (leafEdit seed val).shift (8 + (encodeNode key).length)
  | .vec [] => ⟨0, 0, []⟩
  | .map [] => ⟨0, 0, []⟩
  | .opaque_ _ => ⟨0, 0, []⟩
  | .void => ⟨0, 0, []⟩

theorem run_fixed {tag middle : List UInt8} (written : List UInt8) {n : ℕ} (htag : tag.length = 4)
    (hmiddle : middle.length = n) : (Splice.mk 4 n written).run (tag ++ middle) = tag ++ written := by
  have hrun := @run_middle _ tag middle [] written 4 n htag hmiddle
  rwa [List.append_nil, List.append_nil] at hrun

theorem run_data {tag : List UInt8} (htag : tag.length = 4) (data : List UInt8) :
    (Splice.mk 8 data.length (bumpLast data)).run (tag ++ writeBytes data) = tag ++ writeBytes (bumpLast data) := by
  have hrun := @run_middle _ (tag ++ writeU32 (UInt32.ofNat data.length)) data
    (List.replicate (padding data.length) 0) (bumpLast data) 8 data.length (by simp [htag]) rfl
  rw [writeBytes, writeBytes, length_bumpLast]
  simpa only [List.append_assoc] using hrun

theorem leafEdit_inside (seed : UInt64) (t : ScValNode) : (leafEdit seed t).Inside (encodeNode t) := by
  fun_induction leafEdit seed t with
  | case10 data | case11 data | case12 data =>
    simp only [Splice.Inside, encodeNode, List.length_append, length_writeU32, writeBytes]
    omega
  | case13 first items ih =>
    have hfront := (ih.append (encodeItems items)).shift
      (writeU32 scvVec ++ writeU32 (UInt32.ofNat (items.length + 1)))
    simpa [encodeNode, encodeItems] using hfront
  | case14 key val entries ih =>
    have hfront := (ih.append (encodeEntries entries)).shift
      (writeU32 scvMap ++ writeU32 (UInt32.ofNat (entries.length + 1)) ++ encodeNode key)
    simpa [encodeNode, encodeEntries, ← Nat.add_assoc] using hfront
  | _ => simp [Splice.Inside, encodeNode, Bytes16.length_eq]

theorem encodeNode_mutateNode (seed : UInt64) (t : ScValNode) :
    encodeNode (mutateNode seed t) = (leafEdit seed t).run (encodeNode t) := by
  fun_induction mutateNode seed t with
  | case1 v =>
    have hflip : (if (!v) = true then (1 : UInt32) else 0) = if v then 0 else 1 := by cases v <;> rfl
    rw [encodeNode, hflip]
    exact (run_fixed _ rfl rfl).symm
  | case8 b | case9 b => exact (run_fixed _ rfl b.length_eq).symm
  | case10 data | case11 data | case12 data => exact (run_data rfl data).symm
  | case13 first items ih =>
    have hrun := run_shift (leafEdit seed first) (writeU32 scvVec ++ writeU32 (UInt32.ofNat (items.length + 1)))
      (encodeNode first ++ encodeItems items)
    rw [run_append (leafEdit_inside seed first), ← ih] at hrun
    simpa [encodeNode, encodeItems, leafEdit] using hrun.symm
  | case14 key val entries ih =>
    have hrun := run_shift (leafEdit seed val)
      (writeU32 scvMap ++ writeU32 (UInt32.ofNat (entries.length + 1)) ++ encodeNode key)
      (encodeNode val ++ encodeEntries entries)
    rw [run_append (leafEdit_inside seed val), ← ih] at hrun
    simpa [encodeNode, encodeEntries, leafEdit, ← Nat.add_assoc] using hrun.symm
  | case2 | case3 | case4 | case5 | case6 | case7 => exact (run_fixed _ rfl rfl).symm
  | case15 | case16 | case17 | case18 => simp [leafEdit, run]

end Leaves

section Leads

variable (config : HavocConfig) (payload target : List UInt8) (rng : UInt64)

/-- `target` is the payload up to the limit, the byte at the drawn place aside. -/
def FlipLeads : Prop :=
  if payload = [] then target = [(nextByte rng).1]
  else
    let idx := nextIndex payload.length rng
    (putAt idx.1 (flippedByte (payload.getD idx.1 0) idx.2).1).Fits config.maxLen payload target

/-- The byte at `j` where `copyLen` bytes from `src` on stand at `dst`. -/
def copiedByte (copyLen src dst j : ℕ) : UInt8 :=
  payload.getD (if dst ≤ j ∧ j < dst + copyLen then src + (j - dst) else j) 0

def CopyLeads : Prop :=
  if payload.length < 2 then FlipLeads config payload target rng
  else
    let copyLen := nextRange 1 (max (min (payload.length / 2) config.maxGrowth) 1) rng
    let src := nextIndex (payload.length - copyLen.1 + 1) copyLen.2
    let dst := nextIndex (payload.length - copyLen.1 + 1) src.2
    let idx := nextIndex payload.length dst.2
    let copied := copiedByte payload copyLen.1 src.1 (copyTarget payload.length copyLen.1 src.1 dst.1)
    target.length = min config.maxLen payload.length ∧ ∀ j < target.length,
      target[j]? = some (if j = idx.1 then (flippedByte (copied j) idx.2).1 else copied j)

def InsertLeads : Prop :=
  if config.maxLen ≤ payload.length then FlipLeads config payload target rng
  else
    let insLen := nextRange 1 (min (config.maxLen - payload.length) config.maxGrowth) rng
    let pos := insertPosition payload insLen.2
    (insertAt pos.1 (insertedData insLen.1 pos.2).1).Fits config.maxLen payload target

def DeleteLeads : Prop :=
  if payload.length ≤ config.minLen then InsertLeads config payload target rng
  else
    let delLen := nextRange 1 (min (payload.length - config.minLen) config.maxGrowth) rng
    let pos := nextIndex (payload.length - delLen.1 + 1) delLen.2
    (removeAt pos.1 delLen.1).Fits config.maxLen payload target

def RepeatLeads : Prop :=
  if payload = [] ∨ config.maxLen ≤ payload.length then InsertLeads config payload target rng
  else
    let chunkLen := nextRange 1 (max (min payload.length config.maxGrowth) 1) rng
    let pos := nextIndex (payload.length - chunkLen.1 + 1) chunkLen.2
    let count := nextRange 1 (max (min ((config.maxLen - payload.length) / chunkLen.1) 4) 1) pos.2
    (insertAt (pos.1 + chunkLen.1) (List.replicate count.1 ((payload.drop pos.1).take chunkLen.1)).flatten).Fits
      config.maxLen payload target

def TagLeads : Prop :=
  match markedTag payload with
  | some pos => (putAt (pos + 1) (flippedTag (payload.getD (pos + 1) 0) rng).1).Fits config.maxLen payload target
  | none =>
    let tag := insertedTag rng
    if payload.length + 2 ≤ config.maxLen then
      (insertAt (insertPosition payload tag.2).1 [enumMarker, tag.1]).Fits config.maxLen payload target
    else (Splice.mk 0 2 [enumMarker, tag.1]).Fits config.maxLen payload target

/-- `target` is the tree as it is written, one leaf aside; where nothing is written, a byte is drawn. Bytes that hold
no tree have one of them counted up. -/
def TreeLeads : Prop :=
  match decode payload with
  | .ok t =>
    if encodeNode t = [] then target = [(nextByte (advanceRng rng)).1]
    else (leafEdit (advanceRng rng) t).Fits config.maxLen (encodeNode t) target
  | .error _ =>
    if payload = [] then target = [(advanceRng rng).toUInt8]
    else
      let idx := (advanceRng rng).toNat % payload.length
      (putAt idx (payload.getD idx 0 + 1)).Fits config.maxLen payload target

/-- The draws of an operation on `payload` lead to `target`. -/
def Leads : HavocOp → Prop
  | .byteFlip => FlipLeads config payload target rng
  | .blockCopy => CopyLeads config payload target rng
  | .blockInsert => InsertLeads config payload target rng
  | .blockDelete => DeleteLeads config payload target rng
  | .chunkRepeat => RepeatLeads config payload target rng
  | .xdrTagFlip => TagLeads config payload target rng
  | .scvalMutate => TreeLeads config payload target rng

variable {config payload target rng} (hmin : config.minLen = 1) (hmax : 2 < config.maxLen)
include hmin

theorem Moves.leads_iff {edit : Edit} (h : Moves config payload edit) (rng' : UInt64) :
    (enforceBounds edit.run config rng').1 = target ↔ edit.splice.Fits config.maxLen edit.base target := by
  rw [enforceBounds_result hmin, if_neg h.nonempty]
  exact take_run_eq_iff h.inside _

include hmax

omit hmin hmax in
theorem applyByteFlip_edit (hnil : payload ≠ []) : (applyByteFlip payload rng).1 =
    ⟨payload, putAt (nextIndex payload.length rng).1
      (flippedByte (payload.getD (nextIndex payload.length rng).1 0) (nextIndex payload.length rng).2).1⟩ := by
  rw [applyByteFlip, if_neg hnil, bind_apply, andReturn_fst]

theorem applyByteFlip_leads_iff (rng' : UInt64) :
    (enforceBounds (applyByteFlip payload rng).1.run config rng').1 = target ↔
      FlipLeads config payload target rng := by
  have hmoves : Moves config payload (applyByteFlip payload rng).1 := (applyByteFlip_moves hmax).result rng
  by_cases hnil : payload = []
  · have hrun : (applyByteFlip payload rng).1.run = [(nextByte rng).1] := by
      rw [applyByteFlip, if_pos hnil, andReturn_fst, hnil]
      simp [Edit.run, Splice.run, insertAt]
    rw [enforceBounds_result hmin, if_neg hmoves.nonempty, hrun, FlipLeads, if_pos hnil,
      List.take_of_length_le (by rw [List.length_singleton]; omega), eq_comm]
  · rw [hmoves.leads_iff hmin, FlipLeads, if_neg hnil, applyByteFlip_edit hnil]

omit hmin hmax in
theorem take_eq_iff_getElem? {l : List UInt8} {n : ℕ} :
    l.take n = target ↔ target.length = min n l.length ∧ ∀ j < target.length, target[j]? = l[j]? := by
  constructor
  · rintro rfl
    refine ⟨List.length_take, fun j hj => ?_⟩
    rw [List.length_take] at hj
    rw [List.getElem?_take, if_pos (by omega)]
  · rintro ⟨hlength, hbytes⟩
    apply List.ext_getElem?
    intro j
    rcases Nat.lt_or_ge j target.length with hlt | hge
    · rw [hbytes j hlt, List.getElem?_take, if_pos (by omega)]
    · rw [List.getElem?_eq_none hge, List.getElem?_eq_none]
      rw [List.length_take]
      omega

omit hmin hmax in
theorem copyBlock_getElem? {copyLen src dst : ℕ} (hsrc : src + copyLen ≤ payload.length)
    (hdst : dst + copyLen ≤ payload.length) {j : ℕ} (hj : j < payload.length) :
    (copyBlock payload copyLen src dst)[j]? = some (copiedByte payload copyLen src dst j) := by
  have hbefore : (payload.take dst).length = dst := by
    rw [List.length_take]
    omega
  have hchunk : ((payload.drop src).take copyLen).length = copyLen := by
    rw [List.length_take, List.length_drop]
    omega
  have hsome : ∀ {k}, k < payload.length → payload[k]? = some (payload.getD k 0) := by
    intro k hk
    rw [List.getD_eq_getElem?_getD, List.getElem?_eq_getElem hk, Option.getD_some]
  rw [copyBlock, Splice.run, copiedByte]
  dsimp only
  split_ifs with hinside
  · rw [List.getElem?_append_left, List.getElem?_append_right, hbefore, List.getElem?_take, if_pos, List.getElem?_drop]
    · exact hsome (by omega)
    · omega
    · omega
    · rw [List.length_append]
      omega
  · rcases Nat.lt_or_ge j dst with hlt | hge
    · rw [List.append_assoc, List.getElem?_append_left (by omega), List.getElem?_take, if_pos hlt]
      exact hsome hj
    · have hbehind : dst + copyLen ≤ j := by
        by_contra hnot
        exact hinside ⟨hge, not_le.mp hnot⟩
      rw [List.getElem?_append_right, List.getElem?_drop, List.length_append, hbefore, hchunk,
        Nat.add_sub_cancel' hbehind]
      · exact hsome hj
      · rw [List.length_append]
        omega

theorem applyBlockCopy_leads_iff (rng' : UInt64) :
    (enforceBounds (applyBlockCopy payload config rng).1.run config rng').1 = target ↔
      CopyLeads config payload target rng := by
  by_cases hshort : payload.length < 2
  · rw [applyBlockCopy_flips hshort, CopyLeads, if_pos hshort]
    exact applyByteFlip_leads_iff hmin hmax rng'
  · rw [CopyLeads, if_neg hshort, applyBlockCopy, if_neg hshort, bind_apply, bind_apply, bind_apply]
    dsimp only
    have hcopyLen := (@nextRange_between 1 (max (min (payload.length / 2) config.maxGrowth) 1)).result rng
    generalize nextRange 1 (max (min (payload.length / 2) config.maxGrowth) 1) rng = copyLen at hcopyLen ⊢
    have hsrc := (nextIndex_lt (Nat.succ_pos (payload.length - copyLen.1))).result copyLen.2
    rw [Nat.succ_eq_add_one] at hsrc
    generalize nextIndex (payload.length - copyLen.1 + 1) copyLen.2 = src at hsrc ⊢
    have hdst := (nextIndex_lt (Nat.succ_pos (payload.length - copyLen.1))).result src.2
    rw [Nat.succ_eq_add_one] at hdst
    generalize nextIndex (payload.length - copyLen.1 + 1) src.2 = dst at hdst ⊢
    have htarget : copyTarget payload.length copyLen.1 src.1 dst.1 + copyLen.1 ≤ payload.length :=
      copyTarget_le (by omega)
    generalize copyTarget payload.length copyLen.1 src.1 dst.1 = place at htarget ⊢
    have hsource : src.1 + copyLen.1 ≤ payload.length := by omega
    have hlength := length_copyBlock hsource htarget
    have hbyte : ∀ {j}, j < payload.length → (copyBlock payload copyLen.1 src.1 place)[j]? =
        some (copiedByte payload copyLen.1 src.1 place j) := copyBlock_getElem? hsource htarget
    generalize copyBlock payload copyLen.1 src.1 place = block at hlength hbyte ⊢
    have hblock : block ≠ [] := by
      rw [← List.length_pos_iff]
      omega
    have hidx := (nextIndex_lt (by omega : 0 < payload.length)).result dst.2
    rw [applyByteFlip_edit hblock, hlength]
    generalize nextIndex payload.length dst.2 = idx at hidx ⊢
    have hinside : idx.1 < block.length := by omega
    rw [Edit.run]
    dsimp only
    rw [run_putAt _ _ hinside, enforceBounds_result hmin, if_neg (by simpa using hblock), take_eq_iff_getElem?,
      List.length_set, hlength]
    apply and_congr_right
    intro htargetLength
    apply forall_congr'
    intro j
    apply imp_congr_right
    intro hj
    have hjlt : j < payload.length := by omega
    rw [List.getD_eq_getElem?_getD, hbyte hidx, Option.getD_some, List.getElem?_set, hlength]
    by_cases hji : j = idx.1
    · rw [if_pos hji.symm, if_pos hidx, if_pos hji, hji]
    · rw [if_neg (Ne.symm hji), if_neg hji, hbyte hjlt]

theorem applyBlockInsert_leads_iff (rng' : UInt64) :
    (enforceBounds (applyBlockInsert payload config rng).1.run config rng').1 = target ↔
      InsertLeads config payload target rng := by
  have hmoves : Moves config payload (applyBlockInsert payload config rng).1 := (applyBlockInsert_moves hmax).result rng
  by_cases hfull : config.maxLen ≤ payload.length
  · rw [InsertLeads, if_pos hfull, applyBlockInsert, if_pos hfull]
    exact applyByteFlip_leads_iff hmin hmax rng'
  · have hedit : (applyBlockInsert payload config rng).1 =
        let insLen := nextRange 1 (min (config.maxLen - payload.length) config.maxGrowth) rng
        let pos := insertPosition payload insLen.2
        ⟨payload, insertAt pos.1 (insertedData insLen.1 pos.2).1⟩ := by
      rw [applyBlockInsert, if_neg hfull, bind_apply, bind_apply, andReturn_fst]
    rw [hmoves.leads_iff hmin, InsertLeads, if_neg hfull, hedit]

theorem applyBlockDelete_leads_iff (rng' : UInt64) :
    (enforceBounds (applyBlockDelete payload config rng).1.run config rng').1 = target ↔
      DeleteLeads config payload target rng := by
  have hmoves : Moves config payload (applyBlockDelete payload config rng).1 :=
    (applyBlockDelete_moves hmin hmax).result rng
  by_cases hshort : payload.length ≤ config.minLen
  · rw [DeleteLeads, if_pos hshort, applyBlockDelete, if_pos hshort]
    exact applyBlockInsert_leads_iff hmin hmax rng'
  · rw [hmoves.leads_iff hmin, DeleteLeads, if_neg hshort, applyBlockDelete, if_neg hshort, bind_apply, andReturn_fst]

theorem applyChunkRepeat_leads_iff (rng' : UInt64) :
    (enforceBounds (applyChunkRepeat payload config rng).1.run config rng').1 = target ↔
      RepeatLeads config payload target rng := by
  have hmoves : Moves config payload (applyChunkRepeat payload config rng).1 := (applyChunkRepeat_moves hmax).result rng
  by_cases hinsert : payload = [] ∨ config.maxLen ≤ payload.length
  · rw [RepeatLeads, if_pos hinsert, applyChunkRepeat, if_pos hinsert]
    exact applyBlockInsert_leads_iff hmin hmax rng'
  · have hedit : (applyChunkRepeat payload config rng).1 =
        let chunkLen := nextRange 1 (max (min payload.length config.maxGrowth) 1) rng
        let pos := nextIndex (payload.length - chunkLen.1 + 1) chunkLen.2
        let count := nextRange 1 (max (min ((config.maxLen - payload.length) / chunkLen.1) 4) 1) pos.2
        ⟨payload, insertAt (pos.1 + chunkLen.1)
          (List.replicate count.1 ((payload.drop pos.1).take chunkLen.1)).flatten⟩ := by
      rw [applyChunkRepeat, if_neg hinsert, bind_apply, bind_apply, andReturn_fst]
    rw [hmoves.leads_iff hmin, RepeatLeads, if_neg hinsert, hedit]

omit hmax in
theorem edit_leads_iff {edit : Edit} (hinside : edit.Inside) (hnil : edit.run ≠ []) (rng' : UInt64) :
    (enforceBounds edit.run config rng').1 = target ↔ edit.splice.Fits config.maxLen edit.base target := by
  rw [enforceBounds_result hmin, if_neg hnil]
  exact take_run_eq_iff hinside _

theorem applyXdrTagFlip_leads_iff (rng' : UInt64) :
    (enforceBounds (applyXdrTagFlip payload config rng).1.run config rng').1 = target ↔
      TagLeads config payload target rng := by
  unfold applyXdrTagFlip TagLeads
  cases hmark : markedTag payload with
  | none =>
    have hmoves : Moves config payload (insertTag payload config rng).1 := (insertTag_moves hmark hmax).result rng
    dsimp only
    rw [hmoves.leads_iff hmin, insertTag, bind_apply]
    generalize insertedTag rng = tag
    by_cases hroom : payload.length + 2 ≤ config.maxLen
    · rw [if_pos hroom, if_pos hroom, andReturn_fst]
    · rw [if_neg hroom, if_neg hroom, if_pos (by omega)]
      exact Iff.rfl
  | some pos =>
    have hpos := markedTag_lt hmark
    dsimp only
    rw [flipTag, andReturn_fst]
    generalize (flippedTag (payload.getD (pos + 1) 0) rng).1 = tag
    have hinside : Edit.Inside ⟨payload, putAt (pos + 1) tag⟩ := hpos
    apply edit_leads_iff hmin hinside
    intro hnil
    have hlength := length_run hinside
    rw [show (putAt (pos + 1) tag).run payload = [] from hnil, List.length_nil] at hlength
    change 0 + 1 = payload.length + 1 at hlength
    omega

omit hmin hmax in
theorem byteFlip_eq_run (hnil : payload ≠ []) : byteFlip payload rng =
    (putAt (rng.toNat % payload.length) (payload.getD (rng.toNat % payload.length) 0 + 1)).run payload := by
  have hidx : rng.toNat % payload.length < payload.length := Nat.mod_lt _ (List.length_pos_of_ne_nil hnil)
  rw [byteFlip, if_neg hnil, run_putAt _ _ hidx, List.modify_eq_set_get _ hidx, List.getD_eq_getElem?_getD,
    List.getElem?_eq_getElem hidx]
  rfl

theorem applyScvalMutate_leads_iff (hgrowth : 3 ≤ config.maxGrowth) :
    (enforceBounds (applyScvalMutate payload config rng).1.run config (applyScvalMutate payload config rng).2).1 =
      target ↔ TreeLeads config payload target rng := by
  unfold TreeLeads
  cases hdecode : decode payload with
  | error fault =>
    have hlength := @length_byteFlip payload (advanceRng rng)
    rw [applyScvalMutate_eq (mutateXdrPayload_of_error hdecode), run_replaced, enforceBounds_result hmin, if_neg]
    · dsimp only
      split_ifs with hnil
      · rw [byteFlip, if_pos hnil, List.take_of_length_le (by rw [List.length_singleton]; omega), eq_comm]
      · have hidx := Nat.mod_lt (advanceRng rng).toNat (List.length_pos_of_ne_nil hnil)
        rw [byteFlip_eq_run hnil]
        exact take_run_eq_iff (by exact hidx) _
    · rw [← List.length_eq_zero_iff]
      omega
  | ok t =>
    have hlength := @nodeSize_mutateNode (advanceRng rng) t
    unfold nodeSize at hlength
    rw [applyScvalMutate_eq (mutateXdrPayload_of_decode hdecode hgrowth), run_replaced, enforceBounds_result hmin]
    dsimp only
    by_cases hnil : encodeNode t = []
    · rw [hnil, List.length_nil, List.length_eq_zero_iff] at hlength
      rw [if_pos hlength, if_pos hnil]
      exact eq_comm
    · have hchanged : encodeNode (mutateNode (advanceRng rng) t) ≠ [] := by
        rwa [ne_eq, ← List.length_eq_zero_iff, hlength, List.length_eq_zero_iff]
      rw [if_neg hchanged, if_neg hnil, encodeNode_mutateNode]
      exact take_run_eq_iff (leafEdit_inside _ t) _

theorem applyOp_leads_iff (hgrowth : 3 ≤ config.maxGrowth) (op : HavocOp) :
    (enforceBounds (applyOp payload config op rng).1.run config (applyOp payload config op rng).2).1 = target ↔
      Leads config payload target rng op := by
  cases op with
  | byteFlip => exact applyByteFlip_leads_iff hmin hmax _
  | blockCopy => exact applyBlockCopy_leads_iff hmin hmax _
  | blockInsert => exact applyBlockInsert_leads_iff hmin hmax _
  | blockDelete => exact applyBlockDelete_leads_iff hmin hmax _
  | chunkRepeat => exact applyChunkRepeat_leads_iff hmin hmax _
  | xdrTagFlip => exact applyXdrTagFlip_leads_iff hmin hmax _
  | scvalMutate => exact applyScvalMutate_leads_iff hmin hmax hgrowth

end Leads

section Stalls

variable {payload : List UInt8} {config : HavocConfig} {rng : UInt64}

/-- The draws on which an operation leaves a payload of allowed length as it is: a block copy whose flip restores
the one byte the copy changed, an invalid tag drawn for a byte that is this tag already, and a tree that is
written back byte by byte without having changed. -/
def Stalls (config : HavocConfig) (payload : List UInt8) (op : HavocOp) (rng : UInt64) : Prop :=
  payload.length ≤ config.maxLen ∧
    match op with
    | .blockCopy => 2 ≤ payload.length ∧ CopyLeads config payload payload rng
    | .xdrTagFlip =>
      ∃ pos, markedTag payload = some pos ∧ ∃ tag ∈ invalidTags, payload[pos + 1]? = some tag ∧
        (flippedTag tag rng).1 = tag
    | .scvalMutate =>
      ∃ t, decode payload = .ok t ∧ (encodeNode t).take config.maxLen = payload ∧ inert (advanceRng rng) t
    | _ => False

theorem Moves.stalls_iff {edit : Edit} (h : Moves config payload edit) (hmin : config.minLen = 1) {p : Prop} (hp : ¬p)
    (rng' : UInt64) : (enforceBounds edit.run config rng').1 = payload ↔ payload.length ≤ config.maxLen ∧ p := by
  constructor
  · exact fun hsame => absurd hsame (h.enforceBounds_ne hmin rng')
  · exact fun hstalls => absurd hstalls.2 hp

theorem length_le_of_enforceBounds {payload' : List UInt8} (hmin : config.minLen = 1) (hmax : 2 < config.maxLen)
    (h : (enforceBounds payload' config rng).1 = payload) : payload.length ≤ config.maxLen := by
  rw [← h, enforceBounds_result hmin]
  split_ifs
  · exact Nat.le_of_lt (Nat.lt_of_succ_lt hmax)
  · exact List.length_take_le _ _

theorem applyBlockCopy_stalls_iff (hmin : config.minLen = 1) (hmax : 2 < config.maxLen) (rng' : UInt64) :
    (enforceBounds (applyBlockCopy payload config rng).1.run config rng').1 = payload ↔
      Stalls config payload .blockCopy rng := by
  by_cases hlength : payload.length < 2
  · have hflip : Moves config payload (applyByteFlip payload rng).1 := (applyByteFlip_moves hmax).result rng
    rw [applyBlockCopy_flips hlength]
    exact hflip.stalls_iff hmin (fun h => not_le.mpr hlength h.1) rng'
  · rw [not_lt] at hlength
    have hleads := @applyBlockCopy_leads_iff config payload payload rng hmin hmax rng'
    constructor
    · exact fun hsame => ⟨length_le_of_enforceBounds hmin hmax hsame, hlength, hleads.mp hsame⟩
    · exact fun hstalls => hleads.mpr hstalls.2.2

theorem flippedTag_keeps (currentTag : UInt8) :
    Yields (flippedTag currentTag) fun tag => tag = currentTag → tag ∈ invalidTags := by
  apply Yields.bindAny
  intro bit
  apply Yields.ite
  · intro _
    apply (nextIndex_lt (by decide : 0 < invalidTags.length)).bind
    intro idx hidx
    apply Yields.pure
    intro _
    rw [List.getD_eq_getElem?_getD, List.getElem?_eq_getElem hidx]
    exact List.getElem_mem hidx
  · intro _
    apply (otherValidTag_ne currentTag).mono
    exact fun tag hne hsame => absurd hsame hne

theorem flipTag_eq (pos : ℕ) : (flipTag payload pos rng).1 =
    ⟨payload, putAt (pos + 1) (flippedTag (payload.getD (pos + 1) 0) rng).1⟩ := andReturn_fst _ _ _

theorem put_stalls_iff {idx : ℕ} {old b : UInt8} (hold : payload[idx]? = some old) (hmin : config.minLen = 1)
    (hmax : 2 < config.maxLen) (rng' : UInt64) :
    (enforceBounds (Edit.run ⟨payload, putAt idx b⟩) config rng').1 = payload ↔
      payload.length ≤ config.maxLen ∧ b = old := by
  obtain ⟨hidx, hget⟩ := List.getElem?_eq_some_iff.mp hold
  by_cases hb : b = old
  · have hrun : Edit.run ⟨payload, putAt idx b⟩ = payload := by
      rw [hb]
      exact (run_putAt_eq_iff hidx).mpr hold
    have hnil : payload ≠ [] := List.length_pos_iff.mp (Nat.zero_lt_of_lt hidx)
    constructor
    · exact fun hsame => ⟨length_le_of_enforceBounds hmin hmax hsame, hb⟩
    · rintro ⟨hlength, _⟩
      rw [hrun, enforceBounds_result hmin, if_neg hnil, List.take_of_length_le hlength]
  · have hmoves : Moves config payload ⟨payload, putAt idx b⟩ := by
      apply Moves.put hidx
      rw [hold]
      exact fun hsame => hb (Option.some_inj.mp hsame).symm
    exact hmoves.stalls_iff hmin hb rng'

theorem applyXdrTagFlip_stalls_iff (hmin : config.minLen = 1) (hmax : 2 < config.maxLen) (rng' : UInt64) :
    (enforceBounds (applyXdrTagFlip payload config rng).1.run config rng').1 = payload ↔
      Stalls config payload .xdrTagFlip rng := by
  unfold applyXdrTagFlip
  cases hmark : markedTag payload with
  | none =>
    have hinsert : Moves config payload (insertTag payload config rng).1 := (insertTag_moves hmark hmax).result rng
    apply hinsert.stalls_iff hmin
    rintro ⟨pos, hpos, _⟩
    exact nomatch hmark.symm.trans hpos
  | some pos =>
    have hpos := markedTag_lt hmark
    obtain ⟨old, hold⟩ : ∃ old, payload[pos + 1]? = some old := ⟨_, List.getElem?_eq_getElem hpos⟩
    have hcurrent : payload.getD (pos + 1) 0 = old := by
      rw [List.getD_eq_getElem?_getD, hold, Option.getD_some]
    dsimp only
    rw [flipTag_eq, hcurrent, put_stalls_iff hold hmin hmax]
    constructor
    · rintro ⟨hlength, hdrawn⟩
      have hinvalid := (flippedTag_keeps old).result rng hdrawn
      rw [hdrawn] at hinvalid
      exact ⟨hlength, pos, hmark, old, hinvalid, hold, hdrawn⟩
    · rintro ⟨hlength, pos', hpos', tag, _, htag, hdrawn⟩
      obtain rfl := Option.some_inj.mp (hmark.symm.trans hpos')
      obtain rfl := Option.some_inj.mp (hold.symm.trans htag)
      exact ⟨hlength, hdrawn⟩

theorem applyScvalMutate_stalls_iff (hmin : config.minLen = 1) (hmax : 2 < config.maxLen)
    (hgrowth : 3 ≤ config.maxGrowth) (rng' : UInt64) :
    (enforceBounds (applyScvalMutate payload config rng).1.run config rng').1 = payload ↔
      Stalls config payload .scvalMutate rng := by
  cases hdecode : decode payload with
  | error fault =>
    rw [applyScvalMutate_eq (mutateXdrPayload_of_error hdecode)]
    have hmoves : Moves config payload ⟨payload, ⟨0, payload.length, byteFlip payload (advanceRng rng)⟩⟩ := by
      have hlength := @length_byteFlip payload (advanceRng rng)
      refine ⟨(Nat.zero_add _).le, ?_, ?_, ?_⟩
      · rw [run_replaced]
        exact byteFlip_ne
      · rw [run_replaced, ← List.length_pos_iff]
        omega
      · rw [run_replaced]
        omega
    apply hmoves.stalls_iff hmin
    rintro ⟨t, ht, _⟩
    exact nomatch hdecode.symm.trans ht
  | ok t =>
    have hfour := four_le_of_decode hdecode
    rw [applyScvalMutate_eq (mutateXdrPayload_of_decode hdecode hgrowth)]
    constructor
    · intro hstep
      have hlength := length_le_of_enforceBounds hmin hmax hstep
      rw [run_replaced, enforceBounds_result hmin] at hstep
      split_ifs at hstep with hnil
      · rw [← hstep] at hfour
        exact absurd hfour (by simp)
      · obtain ⟨htake, hinert⟩ := (take_encode_mutate_eq_iff hdecode).mp hstep
        exact ⟨hlength, t, hdecode, htake, hinert⟩
    · rintro ⟨_, t', ht', htake, hinert⟩
      obtain rfl := Except.ok.inj (hdecode.symm.trans ht')
      have hpayload := (take_encode_mutate_eq_iff hdecode).mpr ⟨htake, hinert⟩
      have hnil : encodeNode (mutateNode (advanceRng rng) t) ≠ [] := by
        intro hnil
        rw [hnil, List.take_nil] at hpayload
        rw [← hpayload] at hfour
        exact nomatch hfour
      rw [run_replaced, enforceBounds_result hmin, if_neg hnil]
      exact hpayload

theorem applyOp_stalls_iff (hmin : config.minLen = 1) (hmax : 2 < config.maxLen) (hgrowth : 3 ≤ config.maxGrowth)
    (op : HavocOp) (rng' : UInt64) :
    (enforceBounds (applyOp payload config op rng).1.run config rng').1 = payload ↔ Stalls config payload op rng := by
  cases op with
  | byteFlip =>
    have hmoves : Moves config payload (applyByteFlip payload rng).1 := (applyByteFlip_moves hmax).result rng
    exact hmoves.stalls_iff hmin not_false rng'
  | blockCopy => exact applyBlockCopy_stalls_iff hmin hmax rng'
  | blockInsert =>
    have hmoves : Moves config payload (applyBlockInsert payload config rng).1 :=
      (applyBlockInsert_moves hmax).result rng
    exact hmoves.stalls_iff hmin not_false rng'
  | blockDelete =>
    have hmoves : Moves config payload (applyBlockDelete payload config rng).1 :=
      (applyBlockDelete_moves hmin hmax).result rng
    exact hmoves.stalls_iff hmin not_false rng'
  | chunkRepeat =>
    have hmoves : Moves config payload (applyChunkRepeat payload config rng).1 :=
      (applyChunkRepeat_moves hmax).result rng
    exact hmoves.stalls_iff hmin not_false rng'
  | xdrTagFlip => exact applyXdrTagFlip_stalls_iff hmin hmax rng'
  | scvalMutate => exact applyScvalMutate_stalls_iff hmin hmax hgrowth rng'

end Stalls

section Steps

def drawnOp (seed : CaseSeed) : HavocOp × UInt64 := selectOp .default (deriveSeedState seed)

/-- The draws that `seed` fixes lead from its payload to `target`. -/
def StepLeads (seed : CaseSeed) (target : List UInt8) : Prop :=
  Leads .default seed.payload target (drawnOp seed).2 (drawnOp seed).1

theorem applyHavocMutation_payload (payload : List UInt8) (config : HavocConfig) (rng : UInt64) :
    (applyHavocMutation payload config rng).1.1 =
      (enforceBounds (applyOp payload config (selectOp config rng).1 (selectOp config rng).2).1.run config
        (applyOp payload config (selectOp config rng).1 (selectOp config rng).2).2).1 := by
  rw [applyHavocMutation, bind_apply, andReturn_fst, applySpecificOp, bind_apply]

theorem payload_mk (id : ℕ) (payload : List UInt8) : (CaseSeed.mk id payload).payload = payload := rfl

theorem mutateSeed_payload (seed : CaseSeed) :
    (mutateSeed seed).payload =
      (enforceBounds (applyOp seed.payload .default (drawnOp seed).1 (drawnOp seed).2).1.run .default
        (applyOp seed.payload .default (drawnOp seed).1 (drawnOp seed).2).2).1 := by
  rw [drawnOp, mutateSeed, payload_mk]
  exact applyHavocMutation_payload _ _ _

theorem mutateSeed_id (seed : CaseSeed) : (mutateSeed seed).id = seed.id := by
  rw [mutateSeed]

theorem eq_mk_of_id {seed : CaseSeed} {id : ℕ} (h : seed.id = id) : seed = ⟨id, seed.payload⟩ := by
  cases h
  cases seed
  rfl

theorem mutateSeed_mk (seed : CaseSeed) : mutateSeed seed = ⟨seed.id, (mutateSeed seed).payload⟩ :=
  eq_mk_of_id (mutateSeed_id seed)

theorem default_minLen : HavocConfig.default.minLen = 1 := rfl

theorem two_lt_default_maxLen : 2 < HavocConfig.default.maxLen := by decide

theorem three_le_default_maxGrowth : 3 ≤ HavocConfig.default.maxGrowth := by decide

theorem mutateSeed_leads_iff (seed : CaseSeed) (target : List UInt8) :
    (mutateSeed seed).payload = target ↔ StepLeads seed target := by
  rw [mutateSeed_payload]
  exact applyOp_leads_iff default_minLen two_lt_default_maxLen three_le_default_maxGrowth _

theorem mutateSeed_stalls_iff (seed : CaseSeed) :
    (mutateSeed seed).payload = seed.payload ↔ Stalls .default seed.payload (drawnOp seed).1 (drawnOp seed).2 := by
  rw [mutateSeed_payload]
  exact applyOp_stalls_iff default_minLen two_lt_default_maxLen three_le_default_maxGrowth _ _

end Steps

end Havoc

-- the second step flips the bits of the first
example : (mutateSeed ⟨0, [42]⟩).payload ≠ [42] ∧ (mutateSeed (mutateSeed ⟨0, [42]⟩)).payload = [42] := by
  decide +kernel

end CrashLab
