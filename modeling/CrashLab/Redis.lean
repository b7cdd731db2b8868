import Mathlib.Tactic

namespace CrashLab.Redis

variable {κ ν μ : Type*}

inductive Value (ν μ : Type*) where
  | string (value : ν)
  | set (members : Finset μ)
  | list (items : List μ)

abbrev Keyspace (κ ν μ : Type*) := κ → Option (Value ν μ)

section Commands

/-!
A command that finds a value of another kind under its key is refused with `WRONGTYPE`, here `none`,
and changes nothing.
-/

variable [DecidableEq κ] [DecidableEq μ] (ks : Keyspace κ ν μ) (key : κ)

def set (value : ν) : Keyspace κ ν μ := Function.update ks key (some (.string value))

/-- `SET` with `XX`: whether the key was there. -/
def setExisting (value : ν) : Bool × Keyspace κ ν μ :=
  if (ks key).isSome then (true, set ks key value) else (false, ks)

def get : Option (Option ν) :=
  match ks key with
  | none => some none
  | some (.string value) => some (some value)
  | some _ => none

def del : Bool × Keyspace κ ν μ := ((ks key).isSome, Function.update ks key none)

def smembers : Option (Finset μ) :=
  match ks key with
  | none => some ∅
  | some (.set members) => some members
  | some _ => none

def storeSet (members : Finset μ) : Keyspace κ ν μ :=
  Function.update ks key (if members = ∅ then none else some (.set members))

def sadd (member : μ) : Option (Keyspace κ ν μ) :=
  (smembers ks key).map fun members => storeSet ks key (insert member members)

def srem (member : μ) : Option (Bool × Keyspace κ ν μ) :=
  (smembers ks key).map fun members => (decide (member ∈ members), storeSet ks key (members.erase member))

def items : Option (List μ) :=
  match ks key with
  | none => some []
  | some (.list items) => some items
  | some _ => none

def storeList (items : List μ) : Keyspace κ ν μ :=
  Function.update ks key (if items = [] then none else some (.list items))

def rpush (item : μ) : Option (Keyspace κ ν μ) :=
  (items ks key).map fun items => storeList ks key (items ++ [item])

def llen : Option ℕ := (items ks key).map List.length

def absolute (length : ℕ) (index : ℤ) : ℤ := if index < 0 then length + index else index

/-- From `start` through `stop`, as far as there are items. -/
def range {α : Type*} (items : List α) (start stop : ℤ) : List α :=
  (items.take (absolute items.length stop + 1).toNat).drop (absolute items.length start).toNat

def lrange (start stop : ℤ) : Option (List μ) := (items ks key).map fun items => range items start stop

def ltrim (start stop : ℤ) : Option (Keyspace κ ν μ) :=
  (items ks key).map fun items => storeList ks key (range items start stop)

end Commands

section Servers

structure Server (σ κ ν μ : Type*) [DecidableEq κ] [DecidableEq μ] where
  keys : σ → Keyspace κ ν μ
  empty : σ
  set : σ → κ → ν → σ
  setExisting : σ → κ → ν → Bool × σ
  get : σ → κ → Option (Option ν)
  del : σ → κ → Bool × σ
  smembers : σ → κ → Option (Finset μ)
  sadd : σ → κ → μ → Option σ
  srem : σ → κ → μ → Option (Bool × σ)
  rpush : σ → κ → μ → Option σ
  llen : σ → κ → Option ℕ
  lrange : σ → κ → ℤ → ℤ → Option (List μ)
  ltrim : σ → κ → ℤ → ℤ → Option σ
  keys_empty : ∀ key, keys empty key = none
  keys_set : ∀ s key value, keys (set s key value) = Redis.set (keys s) key value
  keys_setExisting : ∀ s key value, (setExisting s key value).map id keys = Redis.setExisting (keys s) key value
  get_keys : ∀ s key, get s key = Redis.get (keys s) key
  keys_del : ∀ s key, (del s key).map id keys = Redis.del (keys s) key
  smembers_keys : ∀ s key, smembers s key = Redis.smembers (keys s) key
  keys_sadd : ∀ s key member, (sadd s key member).map keys = Redis.sadd (keys s) key member
  keys_srem : ∀ s key member, (srem s key member).map (Prod.map id keys) = Redis.srem (keys s) key member
  keys_rpush : ∀ s key item, (rpush s key item).map keys = Redis.rpush (keys s) key item
  llen_keys : ∀ s key, llen s key = Redis.llen (keys s) key
  lrange_keys : ∀ s key start stop, lrange s key start stop = Redis.lrange (keys s) key start stop
  keys_ltrim : ∀ s key start stop, (ltrim s key start stop).map keys = Redis.ltrim (keys s) key start stop

variable [DecidableEq κ] [DecidableEq μ]

@[simps -fullyApplied]
def Server.keyspace : Server (Keyspace κ ν μ) κ ν μ where
  keys := id
  empty := fun _ => none
  set := Redis.set
  setExisting := Redis.setExisting
  get := Redis.get
  del := Redis.del
  smembers := Redis.smembers
  sadd := Redis.sadd
  srem := Redis.srem
  rpush := Redis.rpush
  llen := Redis.llen
  lrange := Redis.lrange
  ltrim := Redis.ltrim
  keys_empty _ := rfl
  keys_set _ _ _ := rfl
  keys_setExisting _ _ _ := rfl
  get_keys _ _ := rfl
  keys_del _ _ := rfl
  smembers_keys _ _ := rfl
  keys_sadd _ _ _ := Option.map_id'
  keys_srem _ _ _ := Option.map_id'
  keys_rpush _ _ _ := Option.map_id'
  llen_keys _ _ := rfl
  lrange_keys _ _ _ _ := rfl
  keys_ltrim _ _ _ _ := Option.map_id'

end Servers

theorem range_last {α : Type*} (l : List α) {n : ℤ} (h : 0 < n) :
    range l (-n) (-1) = l.drop (l.length - n.toNat) := by
  unfold range absolute
  have htake : ((l.length : ℤ) + -1 + 1).toNat = l.length := by omega
  have hdrop : ((l.length : ℤ) + -n).toNat = l.length - n.toNat := by omega
  rw [if_pos (by omega), if_pos (by omega), htake, hdrop, List.take_length]

section Views

def asString : Option (Value ν μ) → Option ν
  | some (.string value) => some value
  | _ => none

def asSet : Option (Value ν μ) → Finset μ
  | some (.set members) => members
  | _ => ∅

def asList : Option (Value ν μ) → List μ
  | some (.list items) => items
  | _ => []

inductive Kind where
  | string
  | set
  | list
deriving DecidableEq

def Value.kind : Value ν μ → Kind
  | .string _ => .string
  | .set _ => .set
  | .list _ => .list

def Fits (ks : Keyspace κ ν μ) (key : κ) (kind : Kind) : Prop := (ks key).all fun value => kind = value.kind

instance Fits.decidable (ks : Keyspace κ ν μ) (key : κ) (kind : Kind) : Decidable (Fits ks key kind) :=
  inferInstanceAs (Decidable ((ks key).all _ = true))

variable {ks : Keyspace κ ν μ} {key : κ}

theorem get_of_fits (h : Fits ks key .string) : get ks key = some (asString (ks key)) := by
  unfold Fits at h
  unfold get
  rcases hks : ks key with _ | (value | members | items) <;> simp_all [Value.kind, asString]

theorem isSome_of_fits (h : Fits ks key .string) : (ks key).isSome = (asString (ks key)).isSome := by
  unfold Fits at h
  rcases hks : ks key with _ | (value | members | items) <;> simp_all [Value.kind, asString]

theorem smembers_of_fits (h : Fits ks key .set) : smembers ks key = some (asSet (ks key)) := by
  unfold Fits at h
  unfold smembers
  rcases hks : ks key with _ | (value | members | items) <;> simp_all [Value.kind, asSet]

theorem items_of_fits (h : Fits ks key .list) : items ks key = some (asList (ks key)) := by
  unfold Fits at h
  unfold items
  rcases hks : ks key with _ | (value | members | items) <;> simp_all [Value.kind, asList]

theorem asString_of_fits {kind : Kind} (h : Fits ks key kind) (hkind : kind ≠ .string) :
    asString (ks key) = none := by
  unfold Fits at h
  rcases hks : ks key with _ | (value | members | items) <;> simp_all [Value.kind, asString]

theorem asSet_of_fits {kind : Kind} (h : Fits ks key kind) (hkind : kind ≠ .set) : asSet (ks key) = ∅ := by
  unfold Fits at h
  rcases hks : ks key with _ | (value | members | items) <;> simp_all [Value.kind, asSet]

theorem asList_of_fits {kind : Kind} (h : Fits ks key kind) (hkind : kind ≠ .list) : asList (ks key) = [] := by
  unfold Fits at h
  rcases hks : ks key with _ | (value | members | items) <;> simp_all [Value.kind, asList]

section Updates

variable [DecidableEq κ] (ks : Keyspace κ ν μ) (key k : κ)

@[simp] theorem asString_set (value : ν) :
    asString (set ks key value k) = if k = key then some value else asString (ks k) := by
  rw [set, Function.update_apply]
  split_ifs <;> rfl

@[simp] theorem asSet_set (value : ν) : asSet (set ks key value k) = if k = key then ∅ else asSet (ks k) := by
  rw [set, Function.update_apply]
  split_ifs <;> rfl

@[simp] theorem asList_set (value : ν) : asList (set ks key value k) = if k = key then [] else asList (ks k) := by
  rw [set, Function.update_apply]
  split_ifs <;> rfl

@[simp] theorem asString_del : asString ((del ks key).2 k) = if k = key then none else asString (ks k) := by
  change asString (Function.update ks key none k) = _
  rw [Function.update_apply]
  split_ifs <;> rfl

@[simp] theorem asSet_del : asSet ((del ks key).2 k) = if k = key then ∅ else asSet (ks k) := by
  change asSet (Function.update ks key none k) = _
  rw [Function.update_apply]
  split_ifs <;> rfl

@[simp] theorem asList_del : asList ((del ks key).2 k) = if k = key then [] else asList (ks k) := by
  change asList (Function.update ks key none k) = _
  rw [Function.update_apply]
  split_ifs <;> rfl

@[simp] theorem asString_storeList (items : List μ) :
    asString (storeList ks key items k) = if k = key then none else asString (ks k) := by
  rw [storeList, Function.update_apply]
  split_ifs <;> rfl

@[simp] theorem asSet_storeList (items : List μ) :
    asSet (storeList ks key items k) = if k = key then ∅ else asSet (ks k) := by
  rw [storeList, Function.update_apply]
  split_ifs <;> rfl

@[simp] theorem asList_storeList (items : List μ) :
    asList (storeList ks key items k) = if k = key then items else asList (ks k) := by
  rw [storeList, Function.update_apply]
  split_ifs with hkey hempty
  · exact hempty.symm
  · rfl
  · rfl

theorem items_storeList (l : List μ) : items (storeList ks key l) key = some l := by
  rw [items, storeList, Function.update_self]
  split_ifs with hempty
  · rw [hempty]
  · rfl

variable [DecidableEq μ]

@[simp] theorem asString_storeSet (members : Finset μ) :
    asString (storeSet ks key members k) = if k = key then none else asString (ks k) := by
  rw [storeSet, Function.update_apply]
  split_ifs <;> rfl

@[simp] theorem asSet_storeSet (members : Finset μ) :
    asSet (storeSet ks key members k) = if k = key then members else asSet (ks k) := by
  rw [storeSet, Function.update_apply]
  split_ifs with hkey hempty
  · exact hempty.symm
  · rfl
  · rfl

@[simp] theorem asList_storeSet (members : Finset μ) :
    asList (storeSet ks key members k) = if k = key then [] else asList (ks k) := by
  rw [storeSet, Function.update_apply]
  split_ifs <;> rfl

end Updates

section Kinds

variable {ks : Keyspace κ ν μ} {key : κ} {kind : Kind}

theorem asSet_of_asString {value : ν} (h : asString (ks key) = some value) : asSet (ks key) = ∅ := by
  rcases hks : ks key with _ | (value | members | items) <;> simp_all [asString, asSet]

theorem Fits.of_eq {ks' : Keyspace κ ν μ} (h : Fits ks key kind) (heq : ks' key = ks key) : Fits ks' key kind := by
  rw [Fits, heq]
  exact h

variable [DecidableEq κ]

theorem Fits.del (h : Fits ks key kind) (other : κ) : Fits (del ks other).2 key kind := by
  by_cases hkey : key = other
  · have hnone : (Redis.del ks other).2 key = none := by
      rw [hkey]
      exact Function.update_self ..
    rw [Fits, hnone]
    rfl
  · exact h.of_eq (Function.update_of_ne hkey _ _)

theorem Fits.set (h : Fits ks key kind) {other : κ} (hne : key ≠ other) (value : ν) :
    Fits (set ks other value) key kind := h.of_eq (Function.update_of_ne hne _ _)

variable [DecidableEq μ]

theorem Fits.storeSet (h : Fits ks key .set) (other : κ) (members : Finset μ) :
    Fits (storeSet ks other members) key .set := by
  by_cases hkey : key = other
  · rw [Fits, hkey, Redis.storeSet, Function.update_self]
    split_ifs <;> rfl
  · exact h.of_eq (Function.update_of_ne hkey _ _)

theorem asString_storeSet_of_fits (h : Fits ks key .set) (members : Finset μ) (k : κ) :
    asString (Redis.storeSet ks key members k) = asString (ks k) := by
  rw [asString_storeSet]
  split_ifs with hk
  · rw [hk, asString_of_fits h (by decide)]
  · rfl

theorem sadd_of_fits (h : Fits ks key .set) (member : μ) :
    sadd ks key member = some (Redis.storeSet ks key (insert member (asSet (ks key)))) := by
  rw [sadd, smembers_of_fits h, Option.map_some]

theorem srem_of_fits (h : Fits ks key .set) (member : μ) :
    srem ks key member = some (decide (member ∈ asSet (ks key)),
      Redis.storeSet ks key ((asSet (ks key)).erase member)) := by
  rw [srem, smembers_of_fits h, Option.map_some]

end Kinds

end Views

end CrashLab.Redis
