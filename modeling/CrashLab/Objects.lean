import CrashLab.KeyedLists

namespace CrashLab.Objects

variable {κ ν : Type*} [DecidableEq κ]

abbrev Members (κ ν : Type*) := List (κ × ν)

def assign (members : Members κ ν) (member : κ × ν) : Members κ ν :=
  if members.any (·.1 = member.1) then members.map fun m => if m.1 = member.1 then member else m
  else members ++ [member]

/-- The object literal with `...more` behind its members. -/
def spread (members more : Members κ ν) : Members κ ν := more.foldl assign members

theorem assign_of_mem {members : Members κ ν} (nodup : (members.map Prod.fst).Nodup) {member : κ × ν}
    (h : member ∈ members) : assign members member = members := by
  have hany : members.any (·.1 = member.1) = true := List.any_eq_true.mpr ⟨member, h, by simp⟩
  rw [assign, if_pos hany]
  refine (List.map_congr_left fun m hm => ?_).trans (List.map_id _)
  split_ifs with hkey
  · exact List.inj_on_of_nodup_map nodup h hm hkey.symm
  · rfl

theorem spread_of_subset {members : Members κ ν} (nodup : (members.map Prod.fst).Nodup) {more : Members κ ν}
    (h : ∀ member ∈ more, member ∈ members) : spread members more = members := by
  induction more with
  | nil => rfl
  | cons member more ih =>
    rw [List.forall_mem_cons] at h
    rw [spread, List.foldl_cons, assign_of_mem nodup h.1]
    exact ih h.2

section Views

variable {ι : Type*} [DecidableEq ι] {name : κ → Option ι}

def view (name : κ → Option ι) (entries : Members κ ν) : Members ι ν :=
  entries.filterMap fun entry => (name entry.1).map (·, entry.2)

def Distinct (name : κ → Option ι) : Prop := ∀ k k' i, name k = some i → name k' = some i → k = k'

section Cases

omit [DecidableEq κ] [DecidableEq ι]

theorem view_append (entries more : Members κ ν) :
    view name (entries ++ more) = view name entries ++ view name more := List.filterMap_append

theorem view_cons_of_none {entry : κ × ν} (h : name entry.1 = none) (entries : Members κ ν) :
    view name (entry :: entries) = view name entries :=
  List.filterMap_cons_none (by rw [h, Option.map_none])

theorem view_cons_of_some {entry : κ × ν} {i : ι} (h : name entry.1 = some i) (entries : Members κ ν) :
    view name (entry :: entries) = (i, entry.2) :: view name entries :=
  List.filterMap_cons_some (by rw [h, Option.map_some])

theorem values_view (entries : Members κ ν) :
    (view name entries).map Prod.snd = (entries.filter fun entry => (name entry.1).isSome).map Prod.snd := by
  induction entries with
  | nil => rfl
  | cons entry entries ih =>
    cases hname : name entry.1 with
    | none => rw [view_cons_of_none hname, List.filter_cons_of_neg (by simp [hname]), ih]
    | some i => rw [view_cons_of_some hname, List.filter_cons_of_pos (by simp [hname]), List.map_cons, List.map_cons, ih]

theorem Distinct.ne (distinct : Distinct name) {k k' : κ} {i i' : ι} (hk : name k = some i)
    (hk' : name k' = some i') (hne : k ≠ k') : i ≠ i' := by
  rintro rfl
  exact hne (distinct _ _ _ hk hk')

end Cases

theorem view_get (distinct : Distinct name) {k : κ} {i : ι} (hk : name k = some i) (entries : Members κ ν) :
    (KeyedLists.get Prod.fst i (view name entries)).map Prod.snd =
      (KeyedLists.get Prod.fst k entries).map Prod.snd := by
  induction entries with
  | nil => rfl
  | cons entry entries ih =>
    rw [KeyedLists.get_cons]
    by_cases hkey : entry.1 = k
    · rw [if_pos hkey, view_cons_of_some (hkey ▸ hk), KeyedLists.get_cons, if_pos rfl]
      rfl
    · rw [if_neg hkey, ← ih]
      cases hname : name entry.1 with
      | none => rw [view_cons_of_none hname]
      | some j => rw [view_cons_of_some hname, KeyedLists.get_cons, if_neg (distinct.ne hname hk hkey)]

theorem view_remove (distinct : Distinct name) {k : κ} {i : ι} (hk : name k = some i) (entries : Members κ ν) :
    view name (KeyedLists.remove Prod.fst k entries) = KeyedLists.remove Prod.fst i (view name entries) := by
  unfold KeyedLists.remove
  induction entries with
  | nil => rfl
  | cons entry entries ih =>
    by_cases hkey : entry.1 = k
    · rw [List.filter_cons_of_neg (by simpa using hkey), ih, view_cons_of_some (hkey ▸ hk),
        List.filter_cons_of_neg (by simp)]
    · rw [List.filter_cons_of_pos (by simpa using hkey)]
      cases hname : name entry.1 with
      | none => rw [view_cons_of_none hname, view_cons_of_none hname, ih]
      | some j =>
        rw [view_cons_of_some hname, view_cons_of_some hname, ih,
          List.filter_cons_of_pos (by simpa using distinct.ne hname hk hkey)]

omit [DecidableEq ι] in
theorem view_remove_of_none {k : κ} (hk : name k = none) (entries : Members κ ν) :
    view name (KeyedLists.remove Prod.fst k entries) = view name entries := by
  unfold KeyedLists.remove
  induction entries with
  | nil => rfl
  | cons entry entries ih =>
    by_cases hkey : entry.1 = k
    · rw [List.filter_cons_of_neg (by simpa using hkey), ih, view_cons_of_none (hkey ▸ hk)]
    · rw [List.filter_cons_of_pos (by simpa using hkey)]
      cases hname : name entry.1 with
      | none => rw [view_cons_of_none hname, view_cons_of_none hname, ih]
      | some j => rw [view_cons_of_some hname, view_cons_of_some hname, ih]

theorem any_view (distinct : Distinct name) {k : κ} {i : ι} (hk : name k = some i) (entries : Members κ ν) :
    (view name entries).any (·.1 = i) = entries.any (·.1 = k) := by
  induction entries with
  | nil => rfl
  | cons entry entries ih =>
    rw [List.any_cons, ← ih]
    by_cases hkey : entry.1 = k
    · rw [view_cons_of_some (hkey ▸ hk), List.any_cons]
      simp [hkey]
    · cases hname : name entry.1 with
      | none =>
        rw [view_cons_of_none hname]
        simp [hkey]
      | some j =>
        rw [view_cons_of_some hname, List.any_cons]
        simp [hkey, distinct.ne hname hk hkey]

theorem view_assign (distinct : Distinct name) {k : κ} {i : ι} (hk : name k = some i) (v : ν)
    (entries : Members κ ν) : view name (assign entries (k, v)) = assign (view name entries) (i, v) := by
  unfold assign
  rw [any_view distinct hk]
  split_ifs with hany
  · clear hany
    induction entries with
    | nil => rfl
    | cons entry entries ih =>
      rw [List.map_cons]
      by_cases hkey : entry.1 = k
      · rw [if_pos hkey, view_cons_of_some hk, view_cons_of_some (hkey ▸ hk), ih, List.map_cons, if_pos rfl]
      · rw [if_neg hkey]
        cases hname : name entry.1 with
        | none => rw [view_cons_of_none hname, view_cons_of_none hname, ih]
        | some j =>
          rw [view_cons_of_some hname, view_cons_of_some hname, ih, List.map_cons,
            if_neg (distinct.ne hname hk hkey)]
  · rw [view_append, view_cons_of_some hk]
    rfl

omit [DecidableEq ι] in
theorem view_assign_of_none {k : κ} (hk : name k = none) (v : ν) (entries : Members κ ν) :
    view name (assign entries (k, v)) = view name entries := by
  unfold assign
  split_ifs with hany
  · clear hany
    induction entries with
    | nil => rfl
    | cons entry entries ih =>
      rw [List.map_cons]
      by_cases hkey : entry.1 = k
      · rw [if_pos hkey, view_cons_of_none hk, view_cons_of_none (hkey ▸ hk), ih]
      · rw [if_neg hkey]
        cases hname : name entry.1 with
        | none => rw [view_cons_of_none hname, view_cons_of_none hname, ih]
        | some j => rw [view_cons_of_some hname, view_cons_of_some hname, ih]
  · rw [view_append, view_cons_of_none hk]
    exact List.append_nil _

end Views

end CrashLab.Objects
