import Mathlib.Tactic

namespace CrashLab.PagedPasses

variable {κ : Type*} (lt : κ → κ → Prop) [DecidableRel lt]

def beyond (listing : List κ) (position : Option κ) : List κ :=
  listing.filter fun k => position.all fun p => decide (lt p k)

/-- The keys a reader gets that takes `size` keys at a time, each page from the listing of its own moment. The flag
tells whether it got the last page. -/
def passFrom (size : ℕ) : List (List κ) → Option κ → List κ × Bool
  | [], _ => ([], false)
  | listing :: later, position =>
    let page := (beyond lt listing position).take size
    if size < (beyond lt listing position).length then
      (page ++ (passFrom size later page.getLast?).1, (passFrom size later page.getLast?).2)
    else (page, true)

attribute [grind =] passFrom

variable {lt} {size : ℕ}

theorem mem_beyond {listing : List κ} {position : Option κ} {k : κ} :
    k ∈ beyond lt listing position ↔ k ∈ listing ∧ ∀ p ∈ position, lt p k := by
  cases position <;> simp [beyond]

theorem getLast_take {l : List κ} (hsize : 0 < size) (hmore : size < l.length) :
    ∃ front last, l.take size = front ++ [last] ∧ (l.take size).getLast? = some last := by
  have hne : l.take size ≠ [] := by
    apply List.ne_nil_of_length_pos
    rw [List.length_take]
    omega
  refine ⟨_, _, (List.dropLast_append_getLast hne).symm, List.getLast?_eq_some_getLast hne⟩

theorem mem_of_getLast_take {l : List κ} {k : κ} (h : (l.take size).getLast? = some k) : k ∈ l :=
  List.mem_of_mem_take (List.mem_of_getLast? h)

section Sorted

variable {P : κ → Prop} (trans : ∀ {a b c}, P a → P b → P c → lt a b → lt b c → lt a c)

variable (lt) in
structure Ordered (listings : List (List κ)) (position : Option κ) (keys : List κ) : Prop where
  increasing : keys.Pairwise lt
  beyond : ∀ k ∈ keys, ∀ p ∈ position, lt p k
  listed : ∀ k ∈ keys, ∃ listing ∈ listings, k ∈ listing

include trans

theorem passFrom_ordered (hsize : 0 < size) {listings : List (List κ)} {position : Option κ}
    (hlistings : ∀ listing ∈ listings, listing.Pairwise lt ∧ ∀ k ∈ listing, P k) (hposition : ∀ p ∈ position, P p) :
    Ordered lt listings position (passFrom lt size listings position).1 := by
  induction listings generalizing position with
  | nil => exact ⟨List.Pairwise.nil, by simp [passFrom], by simp [passFrom]⟩
  | cons listing later ih =>
    rw [List.forall_mem_cons] at hlistings
    obtain ⟨⟨hsorted, hP⟩, hlater⟩ := hlistings
    have hrest : (beyond lt listing position).Pairwise lt := hsorted.filter _
    have hpage : ∀ k ∈ (beyond lt listing position).take size, k ∈ listing ∧ ∀ p ∈ position, lt p k :=
      fun k hk => mem_beyond.mp (List.mem_of_mem_take hk)
    rw [passFrom]
    split_ifs with hmore
    · obtain ⟨front, last, hfront, hlast⟩ := getLast_take hsize hmore
      dsimp only
      rw [hlast]
      have hlastmem : last ∈ (beyond lt listing position).take size := by
        rw [hfront]
        exact List.mem_concat_self
      have hbefore : ∀ k ∈ (beyond lt listing position).take size, k = last ∨ lt k last := by
        have hpairwise : ((beyond lt listing position).take size).Pairwise lt := hrest.sublist (List.take_sublist ..)
        rw [hfront, List.pairwise_append] at hpairwise
        rw [hfront]
        intro k hk
        rw [List.mem_append, List.mem_singleton] at hk
        exact hk.symm.imp_right fun hk => hpairwise.2.2 k hk last (List.mem_singleton_self _)
      have hnext : Ordered lt later (some last) (passFrom lt size later (some last)).1 := by
        apply ih hlater
        rintro _ ⟨⟩
        exact hP last (hpage last hlastmem).1
      have hPnext : ∀ k ∈ (passFrom lt size later (some last)).1, P k := by
        intro k hk
        obtain ⟨listing', hmem, hk⟩ := hnext.listed k hk
        exact (hlater listing' hmem).2 k hk
      refine ⟨?_, ?_, ?_⟩
      · rw [List.pairwise_append]
        refine ⟨hrest.sublist (List.take_sublist ..), hnext.increasing, ?_⟩
        intro a ha b hb
        have hlb := hnext.beyond b hb last rfl
        obtain rfl | hal := hbefore a ha
        · exact hlb
        · exact trans (hP a (hpage a ha).1) (hP last (hpage last hlastmem).1) (hPnext b hb) hal hlb
      · intro k hk p hp
        rw [List.mem_append] at hk
        obtain hk | hk := hk
        · exact (hpage k hk).2 p hp
        · exact trans (hposition p hp) (hP last (hpage last hlastmem).1) (hPnext k hk)
            ((hpage last hlastmem).2 p hp) (hnext.beyond k hk last rfl)
      · intro k hk
        rw [List.mem_append] at hk
        obtain hk | hk := hk
        · exact ⟨listing, List.mem_cons_self, (hpage k hk).1⟩
        · obtain ⟨listing', hmem, hk⟩ := hnext.listed k hk
          exact ⟨listing', List.mem_cons_of_mem _ hmem, hk⟩
    · refine ⟨hrest.sublist (List.take_sublist ..), fun k hk => (hpage k hk).2, ?_⟩
      intro k hk
      exact ⟨listing, List.mem_cons_self, (hpage k hk).1⟩

omit trans

theorem mem_passFrom (hsize : 0 < size) {listings : List (List κ)} {position : Option κ} {k : κ}
    (hlistings : ∀ listing ∈ listings, listing.Pairwise lt) (hfinished : (passFrom lt size listings position).2 = true)
    (hk : ∀ listing ∈ listings, k ∈ listing) (hposition : ∀ p ∈ position, lt p k) :
    k ∈ (passFrom lt size listings position).1 := by
  induction listings generalizing position with
  | nil => simp [passFrom] at hfinished
  | cons listing later ih =>
    rw [List.forall_mem_cons] at hlistings hk
    have hrest : k ∈ beyond lt listing position := mem_beyond.mpr ⟨hk.1, hposition⟩
    rw [passFrom] at hfinished ⊢
    split_ifs at hfinished ⊢ with hmore
    · obtain ⟨front, last, hfront, hlast⟩ := getLast_take hsize hmore
      dsimp only at hfinished ⊢
      rw [hlast] at hfinished ⊢
      rw [List.mem_append]
      rw [← List.take_append_drop size (beyond lt listing position), List.mem_append] at hrest
      apply hrest.imp_right
      intro hdrop
      apply ih hlistings.2 hfinished hk.2
      rintro p ⟨⟩
      have hpairwise : (beyond lt listing position).Pairwise lt := hlistings.1.filter _
      rw [← List.take_append_drop size (beyond lt listing position), List.pairwise_append] at hpairwise
      apply hpairwise.2.2 _ _ _ hdrop
      rw [hfront]
      exact List.mem_concat_self
    · rwa [List.take_of_length_le (not_lt.mp hmore)]

section Settled

variable (irrefl : ∀ a, P a → ¬ lt a a)

include trans irrefl

theorem finishes_settled (hsize : 0 < size) {listings : ℕ → List κ}
    (hlistings : ∀ n, (listings n).Pairwise lt ∧ ∀ k ∈ listings n, P k)
    (hsettled : ∀ n, ∀ k ∈ listings (n + 1), k ∈ listings n) {left : ℕ} {position : Option κ}
    (hposition : ∀ p ∈ position, P p) (hleft : (beyond lt (listings 0) position).length ≤ left) :
    ∃ m, (passFrom lt size ((List.range m).map listings) position).2 = true := by
  induction left using Nat.strong_induction_on generalizing listings position with
  | _ left ih =>
    by_cases hmore : size < (beyond lt (listings 0) position).length
    · obtain ⟨front, last, hfront, hlast⟩ := getLast_take hsize hmore
      have hlastmem : last ∈ beyond lt (listings 0) position := mem_of_getLast_take hlast
      have hPlast : P last := (hlistings 0).2 last (mem_beyond.mp hlastmem).1
      have hsubset : beyond lt (listings 1) (some last) ⊆ (beyond lt (listings 0) position).drop size := by
        intro k hk
        obtain ⟨hmem, hlk⟩ := mem_beyond.mp hk
        have hlk := hlk last rfl
        have hPk := (hlistings 1).2 k hmem
        have hrest : k ∈ beyond lt (listings 0) position := by
          refine mem_beyond.mpr ⟨hsettled 0 k hmem, fun p hp => ?_⟩
          exact trans (hposition p hp) hPlast hPk ((mem_beyond.mp hlastmem).2 p hp) hlk
        have hpairwise : ((beyond lt (listings 0) position).take size).Pairwise lt :=
          ((hlistings 0).1.filter _).sublist (List.take_sublist ..)
        rw [← List.take_append_drop size (beyond lt (listings 0) position), List.mem_append] at hrest
        apply hrest.resolve_left
        rw [hfront, List.mem_append, List.mem_singleton]
        rw [hfront, List.pairwise_append] at hpairwise
        rintro (hk | rfl)
        · have hkl := hpairwise.2.2 k hk last (List.mem_singleton_self _)
          exact irrefl k hPk (trans hPk hPlast hPk hkl hlk)
        · exact irrefl k hPk hlk
      have hnodup : (beyond lt (listings 1) (some last)).Nodup := by
        apply ((hlistings 1).1.filter _).imp_of_mem
        rintro a b ha - hab rfl
        exact irrefl a ((hlistings 1).2 a (List.mem_of_mem_filter ha)) hab
      have hlength := (hnodup.subperm hsubset).length_le
      rw [List.length_drop] at hlength
      have hposition' : ∀ p ∈ some last, P p := by
        rintro _ ⟨⟩
        exact hPlast
      obtain ⟨m, hm⟩ := ih (beyond lt (listings 1) (some last)).length (by omega) (fun n => hlistings (n + 1))
        (fun n => hsettled (n + 1)) hposition' le_rfl
      refine ⟨m + 1, ?_⟩
      rw [List.range_succ_eq_map, List.map_cons, List.map_map, passFrom, if_pos hmore, hlast]
      exact hm
    · refine ⟨1, ?_⟩
      rw [List.range_one, List.map_singleton, passFrom, if_neg hmore]

theorem finishes (hsize : 0 < size) {listings : ℕ → List κ}
    (hlistings : ∀ n, (listings n).Pairwise lt ∧ ∀ k ∈ listings n, P k) {quiet : ℕ}
    (hsettled : ∀ n ≥ quiet, ∀ k ∈ listings (n + 1), k ∈ listings n) {position : Option κ}
    (hposition : ∀ p ∈ position, P p) :
    ∃ m, (passFrom lt size ((List.range m).map listings) position).2 = true := by
  induction quiet generalizing listings position with
  | zero => exact finishes_settled trans irrefl hsize hlistings (fun n => hsettled n (Nat.zero_le n)) hposition le_rfl
  | succ quiet ih =>
    by_cases hmore : size < (beyond lt (listings 0) position).length
    · obtain ⟨front, last, hfront, hlast⟩ := getLast_take hsize hmore
      have hposition' : ∀ p ∈ some last, P p := by
        rintro _ ⟨⟩
        exact (hlistings 0).2 last (mem_beyond.mp (mem_of_getLast_take hlast)).1
      obtain ⟨m, hm⟩ := ih (fun n => hlistings (n + 1)) (fun n hn => hsettled (n + 1) (Nat.succ_le_succ hn)) hposition'
      refine ⟨m + 1, ?_⟩
      rw [List.range_succ_eq_map, List.map_cons, List.map_map, passFrom, if_pos hmore, hlast]
      exact hm
    · refine ⟨1, ?_⟩
      rw [List.range_one, List.map_singleton, passFrom, if_neg hmore]

end Settled

end Sorted

end CrashLab.PagedPasses
