import CrashLab.Histories
import CrashLab.Sorting
import CrashLab.WorkerRing

namespace CrashLab.WorkerRing

open MachineInts Histories Sorting

structure LeaseToken where
  workerId : ℕ
  generation : ℕ
  range : RingRange
deriving DecidableEq, Repr

structure PartitionLease where
  workerId : ℕ
  generation : ℕ
  range : RingRange
  expiresAtMs : ℕ
deriving DecidableEq, Repr

structure LeaseLedger where
  leases : List PartitionLease
  nextGeneration : ℕ
  reclaimedLeases : ℕ
  zombieWrites : ℕ
deriving DecidableEq, Repr

inductive LeaseError where
  | invalidRange (range : RingRange)
  | alreadyLeased (range : RingRange) (workerId : ℕ)
  | generationExhausted
  | expired (generation : ℕ)
  | fenced (tokenGeneration : ℕ)
  | outsideLease (slot : ℕ)
deriving DecidableEq, Repr

def PartitionLease.token (lease : PartitionLease) : LeaseToken :=
  ⟨lease.workerId, lease.generation, lease.range⟩

def PartitionLease.overlaps (range : RingRange) (lease : PartitionLease) : Bool :=
  (lease.range.intersection range).isSome

def PartitionLease.matches (token : LeaseToken) (lease : PartitionLease) : Bool :=
  lease.workerId == token.workerId && lease.generation == token.generation &&
    lease.range == token.range

@[simp] theorem PartitionLease.matches_iff (token : LeaseToken) (lease : PartitionLease) :
    lease.matches token = true ↔ lease.token = token := by
  obtain ⟨w, g, r⟩ := token
  simp [PartitionLease.matches, PartitionLease.token, and_assoc]

namespace LeaseLedger

def default : LeaseLedger := ⟨[], 0, 0, 0⟩

def reclaim (ledger : LeaseLedger) (range : RingRange) (nowMs : ℕ) : LeaseLedger :=
  let kept := ledger.leases.filter fun lease => !lease.overlaps range || nowMs < lease.expiresAtMs
  { ledger with
    leases := kept
    reclaimedLeases := saturatingAdd ledger.reclaimedLeases (ledger.leases.length - kept.length) }

def grant (ledger : LeaseLedger) (lease : PartitionLease) : LeaseLedger :=
  { ledger with
    nextGeneration := lease.generation
    leases := sortByKey (·.range.start) (ledger.leases ++ [lease]) }

def claim (ledger : LeaseLedger) (range : RingRange) (workerId nowMs ttlMs : ℕ) :
    Except LeaseError LeaseToken × LeaseLedger :=
  if range.isEmpty || ringSize < range.end then (.error (.invalidRange range), ledger)
  else
    let ledger := ledger.reclaim range nowMs
    match ledger.leases.find? (·.overlaps range) with
    | some existing => (.error (.alreadyLeased range existing.workerId), ledger)
    | none =>
      match checkedAdd ledger.nextGeneration 1 with
      | none => (.error .generationExhausted, ledger)
      | some generation =>
        let lease := ⟨workerId, generation, range, saturatingAdd nowMs ttlMs⟩
        (.ok lease.token, ledger.grant lease)

def countZombie (ledger : LeaseLedger) : LeaseLedger :=
  { ledger with zombieWrites := saturatingAdd ledger.zombieWrites 1 }

def validateWrite (ledger : LeaseLedger) (token : LeaseToken) (slot nowMs : ℕ) :
    Except LeaseError Unit × LeaseLedger :=
  if !token.range.contains slot then (.error (.outsideLease slot), ledger.countZombie)
  else
    match ledger.leases.find? (·.matches token) with
    | none => (.error (.fenced token.generation), ledger.countZombie)
    | some lease =>
      if lease.expiresAtMs ≤ nowMs then (.error (.expired token.generation), ledger.countZombie)
      else (.ok (), ledger)

def extend (token : LeaseToken) (expiresAtMs : ℕ) : List PartitionLease → List PartitionLease
  | [] => []
  | lease :: leases =>
    if lease.matches token then { lease with expiresAtMs := expiresAtMs } :: leases
    else lease :: extend token expiresAtMs leases

def renew (ledger : LeaseLedger) (token : LeaseToken) (nowMs ttlMs : ℕ) :
    Except LeaseError Unit × LeaseLedger :=
  match ledger.validateWrite token token.range.start nowMs with
  | (.error e, ledger) => (.error e, ledger)
  | (.ok (), ledger) => (.ok (), { ledger with
      leases := extend token (saturatingAdd nowMs ttlMs) ledger.leases })

end LeaseLedger

inductive LedgerOp where
  | claim (range : RingRange) (workerId nowMs ttlMs : ℕ)
  | renew (token : LeaseToken) (nowMs ttlMs : ℕ)
  | validateWrite (token : LeaseToken) (slot nowMs : ℕ)
deriving DecidableEq, Repr

def LeaseLedger.apply (ledger : LeaseLedger) : LedgerOp → LeaseLedger
  | .claim range workerId nowMs ttlMs => (ledger.claim range workerId nowMs ttlMs).2
  | .renew token nowMs ttlMs => (ledger.renew token nowMs ttlMs).2
  | .validateWrite token slot nowMs => (ledger.validateWrite token slot nowMs).2

namespace LeaseLedger

def tokens (ledger : LeaseLedger) : List LeaseToken := ledger.leases.map PartitionLease.token

theorem token_mem {ledger : LeaseLedger} {lease : PartitionLease} (h : lease ∈ ledger.leases) :
    lease.token ∈ ledger.tokens := List.mem_map_of_mem h

@[simp] theorem tokens_countZombie (ledger : LeaseLedger) :
    ledger.countZombie.tokens = ledger.tokens := rfl

theorem tokens_extend (token : LeaseToken) (expiresAtMs : ℕ) (leases : List PartitionLease) :
    (extend token expiresAtMs leases).map PartitionLease.token = leases.map PartitionLease.token := by
  induction leases with
  | nil => rfl
  | cons lease leases ih =>
    rw [extend]
    split_ifs
    · rfl
    · rw [List.map_cons, List.map_cons, ih]

theorem tokens_reclaim (ledger : LeaseLedger) (range : RingRange) (nowMs : ℕ) :
    (ledger.reclaim range nowMs).tokens.Sublist ledger.tokens :=
  (List.filter_sublist).map _

theorem tokens_grant (ledger : LeaseLedger) (lease : PartitionLease) :
    (ledger.grant lease).tokens.Perm (ledger.tokens ++ [lease.token]) := by
  have h := (sortByKey_perm (·.range.start) (ledger.leases ++ [lease])).map PartitionLease.token
  simpa only [tokens, grant, List.map_append, List.map_cons, List.map_nil] using h

theorem validateWrite_state (ledger : LeaseLedger) (token : LeaseToken) (slot nowMs : ℕ) :
    (ledger.validateWrite token slot nowMs).2 = ledger ∨
      (ledger.validateWrite token slot nowMs).2 = ledger.countZombie := by
  unfold validateWrite
  split_ifs
  · exact Or.inr rfl
  · split
    · exact Or.inr rfl
    · split_ifs
      · exact Or.inr rfl
      · exact Or.inl rfl

theorem validateWrite_tokens (ledger : LeaseLedger) (token : LeaseToken) (slot nowMs : ℕ) :
    (ledger.validateWrite token slot nowMs).2.tokens = ledger.tokens ∧
      (ledger.validateWrite token slot nowMs).2.nextGeneration = ledger.nextGeneration := by
  rcases validateWrite_state ledger token slot nowMs with h | h <;> rw [h]
  · exact ⟨rfl, rfl⟩
  · exact ⟨rfl, rfl⟩

theorem renew_tokens (ledger : LeaseLedger) (token : LeaseToken) (nowMs ttlMs : ℕ) :
    (ledger.renew token nowMs ttlMs).2.tokens = ledger.tokens ∧
      (ledger.renew token nowMs ttlMs).2.nextGeneration = ledger.nextGeneration := by
  have hv := validateWrite_tokens ledger token token.range.start nowMs
  unfold renew
  split
  · rename_i heq
    rwa [heq] at hv
  · rename_i heq
    rw [heq] at hv
    exact ⟨(tokens_extend _ _ _).trans hv.1, hv.2⟩

theorem claim_cases (ledger : LeaseLedger) (range : RingRange) (workerId nowMs ttlMs : ℕ) :
    (∃ e, ledger.claim range workerId nowMs ttlMs = (.error e, ledger)) ∨
    (∃ e, ledger.claim range workerId nowMs ttlMs = (.error e, ledger.reclaim range nowMs)) ∨
    (range.start < range.end ∧ range.end ≤ ringSize ∧
      (∀ lease ∈ (ledger.reclaim range nowMs).leases, lease.overlaps range = false) ∧
      ledger.claim range workerId nowMs ttlMs =
        (.ok ⟨workerId, ledger.nextGeneration + 1, range⟩, (ledger.reclaim range nowMs).grant
          ⟨workerId, ledger.nextGeneration + 1, range, saturatingAdd nowMs ttlMs⟩)) := by
  unfold claim
  split_ifs with hinvalid
  · exact Or.inl ⟨_, rfl⟩
  · simp only [Bool.or_eq_true, RingRange.isEmpty_iff, decide_eq_true_eq, not_or, not_le,
      not_lt] at hinvalid
    cases hfind : (ledger.reclaim range nowMs).leases.find? (·.overlaps range) with
    | some existing => exact Or.inr (Or.inl ⟨.alreadyLeased range existing.workerId, by simp only [hfind]⟩)
    | none =>
      have hfree := List.find?_eq_none.mp hfind
      simp only [Bool.not_eq_true] at hfree
      cases hnext : checkedAdd (ledger.reclaim range nowMs).nextGeneration 1 with
      | none => exact Or.inr (Or.inl ⟨.generationExhausted, by simp only [hfind, hnext]⟩)
      | some generation =>
        obtain rfl : generation = ledger.nextGeneration + 1 := checkedAdd_eq_some hnext
        exact Or.inr (Or.inr ⟨hinvalid.1, hinvalid.2, hfree, by
          simp only [hfind, hnext, PartitionLease.token]⟩)

structure WellFormed (ledger : LeaseLedger) : Prop where
  ranges : ∀ t ∈ ledger.tokens, t.range.start < t.range.end ∧ t.range.end ≤ ringSize
  ordered : ledger.tokens.Pairwise fun a b => a.range.end ≤ b.range.start
  generations : ledger.tokens.Pairwise fun a b => a.generation ≠ b.generation
  issued : ∀ t ∈ ledger.tokens, t.generation ≤ ledger.nextGeneration

theorem wellFormed_default : default.WellFormed := by
  constructor <;> simp [default, tokens]

theorem WellFormed.of_sublist {ledger ledger' : LeaseLedger} (h : ledger.WellFormed)
    (ht : ledger'.tokens.Sublist ledger.tokens) (hg : ledger'.nextGeneration = ledger.nextGeneration) :
    ledger'.WellFormed where
  ranges t hm := h.ranges t (ht.subset hm)
  ordered := h.ordered.sublist ht
  generations := h.generations.sublist ht
  issued t hm := hg ▸ h.issued t (ht.subset hm)

theorem WellFormed.reclaim {ledger : LeaseLedger} (h : ledger.WellFormed) (range : RingRange)
    (nowMs : ℕ) : (ledger.reclaim range nowMs).WellFormed :=
  h.of_sublist (tokens_reclaim ledger range nowMs) rfl

theorem overlaps_eq_false {lease : PartitionLease} {range : RingRange}
    (hl : lease.range.start < lease.range.end) (hr : range.start < range.end)
    (h : lease.overlaps range = false) :
    lease.range.end ≤ range.start ∨ range.end ≤ lease.range.start := by
  rw [PartitionLease.overlaps, Option.isSome_eq_false_iff, Option.isNone_iff_eq_none,
    RingRange.intersection_eq_none] at h
  omega

theorem WellFormed.grant {ledger : LeaseLedger} (h : ledger.WellFormed) {lease : PartitionLease}
    (hr : lease.range.start < lease.range.end) (hsize : lease.range.end ≤ ringSize)
    (hfree : ∀ l ∈ ledger.leases, l.overlaps lease.range = false)
    (hg : lease.generation = ledger.nextGeneration + 1) : (ledger.grant lease).WellFormed := by
  have hperm := tokens_grant ledger lease
  have hnext : (ledger.grant lease).nextGeneration = ledger.nextGeneration + 1 := hg
  have hmem : ∀ t, t ∈ (ledger.grant lease).tokens ↔ t ∈ ledger.tokens ∨ t = lease.token := by
    intro t
    rw [hperm.mem_iff, List.mem_append, List.mem_singleton]
  have hnonempty : ∀ l ∈ ledger.leases ++ [lease], l.range.start < l.range.end := by
    intro l hl
    rcases List.mem_append.mp hl with hl | hl
    · exact (h.ranges _ (token_mem hl)).1
    · rwa [List.mem_singleton.mp hl]
  refine ⟨?_, ?_, ?_, ?_⟩
  · intro t ht
    rcases (hmem t).mp ht with ht | rfl
    · exact h.ranges t ht
    · exact ⟨hr, hsize⟩
  · have hdisjoint : (ledger.leases ++ [lease]).Pairwise
        (fun a b => a.range.end ≤ b.range.start ∨ b.range.end ≤ a.range.start) := by
      have hold := List.pairwise_map.mp h.ordered
      rw [List.pairwise_append]
      refine ⟨hold.imp Or.inl, List.pairwise_singleton _ _, ?_⟩
      intro a ha b hb
      rw [List.mem_singleton.mp hb]
      exact overlaps_eq_false (h.ranges _ (token_mem ha)).1 hr (hfree a ha)
    refine List.pairwise_map.mpr (sortByKey_pairwise (fun a b => Or.symm) hdisjoint ?_)
    intro a ha b hb hab hle
    have := hnonempty a ha
    have := hnonempty b hb
    simp only [PartitionLease.token]
    omega
  · apply (hperm.pairwise_iff Ne.symm).mpr
    rw [List.pairwise_append]
    refine ⟨h.generations, List.pairwise_singleton _ _, ?_⟩
    intro a ha b hb
    have hle := h.issued a ha
    rw [List.mem_singleton.mp hb, PartitionLease.token, hg]
    exact ne_of_lt (Nat.lt_succ_of_le hle)
  · intro t ht
    rw [hnext]
    rcases (hmem t).mp ht with ht | rfl
    · exact (h.issued t ht).trans (Nat.le_succ _)
    · exact hg.le

theorem WellFormed.apply {ledger : LeaseLedger} (h : ledger.WellFormed) (op : LedgerOp) :
    (ledger.apply op).WellFormed := by
  cases op with
  | claim range workerId nowMs ttlMs =>
    simp only [LeaseLedger.apply]
    rcases claim_cases ledger range workerId nowMs ttlMs with
      ⟨e, heq⟩ | ⟨e, heq⟩ | ⟨hr, hsize, hfree, heq⟩
    · rw [heq]; exact h
    · rw [heq]; exact h.reclaim range nowMs
    · rw [heq]; exact (h.reclaim range nowMs).grant hr hsize hfree rfl
  | renew token nowMs ttlMs =>
    obtain ⟨ht, hg⟩ := renew_tokens ledger token nowMs ttlMs
    exact h.of_sublist (ht ▸ List.Sublist.refl _) hg
  | validateWrite token slot nowMs =>
    obtain ⟨ht, hg⟩ := validateWrite_tokens ledger token slot nowMs
    exact h.of_sublist (ht ▸ List.Sublist.refl _) hg

theorem wellFormed_run (ops : List LedgerOp) : (run apply default ops).WellFormed :=
  run_invariant (I := WellFormed) (fun _ op h => h.apply op) wellFormed_default ops

end LeaseLedger

end CrashLab.WorkerRing

namespace CrashLab.WorkerRing.LeaseLedger

open Histories

theorem validateWrite_ok {ledger : LeaseLedger} {token : LeaseToken} {slot nowMs : ℕ}
    (h : (ledger.validateWrite token slot nowMs).1 = .ok ()) :
    token ∈ ledger.tokens ∧ token.range.contains slot = true := by
  unfold validateWrite at h
  split_ifs at h with hc
  split at h
  · cases h
  · rename_i lease hfind
    have hm := (PartitionLease.matches_iff token lease).mp
      (List.find?_some (p := PartitionLease.matches token) hfind)
    exact ⟨hm ▸ token_mem (List.mem_of_find?_eq_some hfind), by simpa using hc⟩

theorem renew_ok {ledger : LeaseLedger} {token : LeaseToken} {nowMs ttlMs : ℕ}
    (h : (ledger.renew token nowMs ttlMs).1 = .ok ()) : token ∈ ledger.tokens := by
  unfold renew at h
  split at h
  · cases h
  · rename_i heq
    exact (validateWrite_ok (congrArg Prod.fst heq)).1

theorem not_mem_of_fenced {ledger : LeaseLedger} {token : LeaseToken} {slot nowMs g : ℕ}
    (h : (ledger.validateWrite token slot nowMs).1 = .error (.fenced g)) :
    token ∉ ledger.tokens := by
  unfold validateWrite at h
  split_ifs at h
  · simp at h
  split at h
  · rename_i hfind
    intro hmem
    obtain ⟨lease, hl, hm⟩ := List.mem_map.mp hmem
    exact List.find?_eq_none.mp hfind lease hl ((PartitionLease.matches_iff token lease).mpr hm)
  · split_ifs at h
    simp at h

theorem apply_tokens (ledger : LeaseLedger) (op : LedgerOp) :
    ledger.nextGeneration ≤ (ledger.apply op).nextGeneration ∧
      ∀ t ∈ (ledger.apply op).tokens, t ∈ ledger.tokens ∨ ledger.nextGeneration < t.generation := by
  cases op with
  | claim range workerId nowMs ttlMs =>
    have hold := (tokens_reclaim ledger range nowMs).subset
    simp only [LeaseLedger.apply]
    rcases claim_cases ledger range workerId nowMs ttlMs with
      ⟨e, heq⟩ | ⟨e, heq⟩ | ⟨-, -, -, heq⟩
    · rw [heq]; exact ⟨le_refl _, fun t ht => Or.inl ht⟩
    · rw [heq]; exact ⟨le_refl _, fun t ht => Or.inl (hold ht)⟩
    · rw [heq]
      refine ⟨Nat.le_succ _, fun t ht => ?_⟩
      rcases List.mem_append.mp ((tokens_grant _ _).mem_iff.mp ht) with ht | ht
      · exact Or.inl (hold ht)
      · rw [List.mem_singleton.mp ht]
        exact Or.inr (Nat.lt_succ_self _)
  | renew token nowMs ttlMs =>
    obtain ⟨ht, hg⟩ := renew_tokens ledger token nowMs ttlMs
    exact ⟨hg.ge, fun t h => Or.inl (ht ▸ h)⟩
  | validateWrite token slot nowMs =>
    obtain ⟨ht, hg⟩ := validateWrite_tokens ledger token slot nowMs
    exact ⟨hg.ge, fun t h => Or.inl (ht ▸ h)⟩

def Retired (token : LeaseToken) (ledger : LeaseLedger) : Prop :=
  token.generation ≤ ledger.nextGeneration ∧ token ∉ ledger.tokens

theorem Retired.run {token : LeaseToken} {ledger : LeaseLedger} (h : Retired token ledger)
    (ops : List LedgerOp) : Retired token (run LeaseLedger.apply ledger ops) := by
  refine run_invariant (I := Retired token) ?_ h ops
  rintro s op ⟨hle, hnot⟩
  obtain ⟨hmono, htokens⟩ := apply_tokens s op
  refine ⟨hle.trans hmono, fun hin => ?_⟩
  rcases htokens token hin with hin | hlt
  · exact hnot hin
  · omega

theorem nextGeneration_run (ledger : LeaseLedger) (ops : List LedgerOp) :
    ledger.nextGeneration ≤ (run LeaseLedger.apply ledger ops).nextGeneration :=
  run_invariant (I := fun l => ledger.nextGeneration ≤ l.nextGeneration)
    (fun s op h => h.trans (apply_tokens s op).1) (le_refl _) ops

theorem WellFormed.disjoint {ledger : LeaseLedger} (h : ledger.WellFormed) :
    ledger.leases.Pairwise fun a b => a.range.intersection b.range = none := by
  apply (List.pairwise_map.mp h.ordered).imp
  intro a b hab
  rw [RingRange.intersection_eq_none]
  simp only [PartitionLease.token] at hab
  omega

theorem WellFormed.sorted {ledger : LeaseLedger} (h : ledger.WellFormed) :
    ledger.leases.Pairwise fun a b => a.range.start < b.range.start := by
  refine List.Pairwise.imp_of_mem ?_ (List.pairwise_map.mp h.ordered)
  intro a b ha _ hab
  exact (h.ranges _ (token_mem ha)).1.trans_le hab

theorem WellFormed.token_unique {ledger : LeaseLedger} (h : ledger.WellFormed) {s t : LeaseToken}
    {slot : ℕ} (hs : s ∈ ledger.tokens) (ht : t ∈ ledger.tokens)
    (hsc : s.range.contains slot = true) (htc : t.range.contains slot = true) : s = t := by
  rw [RingRange.contains_iff] at hsc htc
  by_contra hne
  let apart (a b : LeaseToken) := a.range.end ≤ b.range.start ∨ b.range.end ≤ a.range.start
  have : Std.Symm apart := ⟨fun _ _ => Or.symm⟩
  have hapart : ledger.tokens.Pairwise apart := h.ordered.imp fun hab => Or.inl hab
  rcases hapart.forall hs ht hne with hle | hle <;> omega

theorem claim_ok_generation {ledger : LeaseLedger} {range : RingRange} {workerId nowMs ttlMs : ℕ}
    {token : LeaseToken} (h : (ledger.claim range workerId nowMs ttlMs).1 = .ok token) :
    token.generation = (ledger.claim range workerId nowMs ttlMs).2.nextGeneration := by
  rcases claim_cases ledger range workerId nowMs ttlMs with ⟨e, heq⟩ | ⟨e, heq⟩ | ⟨-, -, -, heq⟩
  · rw [heq] at h; cases h
  · rw [heq] at h; cases h
  · rw [heq] at h ⊢
    cases h
    rfl

theorem lease_fencing (ops : List LedgerOp) :
    let ledger := run LeaseLedger.apply default ops
    (∀ l ∈ ledger.leases, l.range.start < l.range.end ∧ l.range.end ≤ ringSize) ∧
    (ledger.leases.Pairwise fun a b => a.range.intersection b.range = none) ∧
    (ledger.leases.Pairwise fun a b => a.range.start < b.range.start) ∧
    (ledger.leases.Pairwise fun a b => a.generation ≠ b.generation) ∧
    (∀ l ∈ ledger.leases, l.generation ≤ ledger.nextGeneration) ∧
    (∀ slot nowMs s t, (ledger.validateWrite s slot nowMs).1 = .ok () →
      (ledger.validateWrite t slot nowMs).1 = .ok () → s = t) ∧
    (∀ pre post range workerId nowMs ttlMs token,
      ops = pre ++ .claim range workerId nowMs ttlMs :: post →
      ((run LeaseLedger.apply default pre).claim range workerId nowMs ttlMs).1 = .ok token →
      token.generation ≤ ledger.nextGeneration) ∧
    (∀ token slot nowMs, token.generation ≤ ledger.nextGeneration →
      (ledger.validateWrite token slot nowMs).1 = .error (.fenced token.generation) →
      ∀ later slot' nowMs' ttlMs',
        ((run LeaseLedger.apply ledger later).validateWrite token slot' nowMs').1 ≠ .ok () ∧
        ((run LeaseLedger.apply ledger later).renew token nowMs' ttlMs').1 ≠ .ok ()) := by
  intro ledger
  have hwf := wellFormed_run ops
  refine ⟨fun l hl => hwf.ranges _ (token_mem hl), hwf.disjoint, hwf.sorted,
    (List.pairwise_map (f := PartitionLease.token)
      (R := fun a b => a.generation ≠ b.generation)).mp hwf.generations,
    fun l hl => hwf.issued _ (token_mem hl), ?_, ?_, ?_⟩
  · intro slot nowMs s t hs ht
    obtain ⟨hsm, hsc⟩ := validateWrite_ok hs
    obtain ⟨htm, htc⟩ := validateWrite_ok ht
    exact hwf.token_unique hsm htm hsc htc
  · intro pre post range workerId nowMs ttlMs token hops hok
    have hg := claim_ok_generation hok
    have hlater := nextGeneration_run
      ((run LeaseLedger.apply default pre).claim range workerId nowMs ttlMs).2 post
    have hrun : ledger = run LeaseLedger.apply
        ((run LeaseLedger.apply default pre).claim range workerId nowMs ttlMs).2 post := by
      simp only [ledger, hops, run_append, run_cons, LeaseLedger.apply]
    rw [hrun]
    exact hg.trans_le hlater
  · intro token slot nowMs hissued hfenced later slot' nowMs' ttlMs'
    have hretired := Retired.run ⟨hissued, not_mem_of_fenced hfenced⟩ later
    exact ⟨fun hok => hretired.2 (validateWrite_ok hok).1, fun hok => hretired.2 (renew_ok hok)⟩

theorem forged_token_is_fenced_then_accepted :
    (default.validateWrite ⟨1, 1, ⟨0, 10⟩⟩ 4 0).1 = .error (.fenced 1) ∧
    ((run LeaseLedger.apply default
      [.validateWrite ⟨1, 1, ⟨0, 10⟩⟩ 4 0, .claim ⟨0, 10⟩ 1 0 10]).validateWrite
        ⟨1, 1, ⟨0, 10⟩⟩ 4 0).1 = .ok () := by
  -- a token forged for the next generation is fenced, and accepted once that generation is claimed with its worker
  -- and range
  decide

end CrashLab.WorkerRing.LeaseLedger
