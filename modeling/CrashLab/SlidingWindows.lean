import CrashLab.RateLimit

namespace CrashLab.RateLimit

open JsStrings Histories

section Buckets

variable {options : FixedWindowOptions} {now : ℤ} {key : JsString} {buckets : Buckets}

def counted (now : ℤ) (bucket : Option Bucket) : ℕ := ((bucket.filter (Bucket.isLive now)).map Bucket.count).getD 0

def windowEnd (options : FixedWindowOptions) (now : ℤ) (bucket : Option Bucket) : ℤ :=
  ((bucket.filter (Bucket.isLive now)).map Bucket.resetAt).getD (now + options.windowMs)

theorem lt_windowEnd (bucket : Option Bucket) : now < windowEnd options now bucket := by
  have hpos := options.windowMs_pos
  unfold windowEnd
  cases hlive : bucket.filter (Bucket.isLive now) with
  | none =>
    change now < now + options.windowMs
    omega
  | some b => exact of_decide_eq_true (Option.filter_eq_some_iff.mp hlive).2

theorem openBucket_fst : (openBucket options now key buckets).1 =
    { count := counted now (buckets key), resetAt := windowEnd options now (buckets key) } := by
  unfold openBucket counted windowEnd
  cases (buckets key).filter (Bucket.isLive now) <;> rfl

theorem openBucket_snd (other : JsString) :
    (openBucket options now key buckets).2 other = buckets other ∨
      (openBucket options now key buckets).2 other = (buckets other).filter (Bucket.isLive now) := by
  unfold openBucket
  cases (buckets key).filter (Bucket.isLive now) with
  | none => exact .inr rfl
  | some b => exact .inl rfl

theorem takeTimes_spec (extra : ℕ) :
    (takeTimes options now key extra buckets).2 key =
        some { count := counted now (buckets key) + (extra + 1), resetAt := windowEnd options now (buckets key) } ∧
      (takeTimes options now key extra buckets).1.allowed =
        decide (counted now (buckets key) + (extra + 1) ≤ options.limit) ∧
      ∀ k ≠ key, (takeTimes options now key extra buckets).2 k = buckets k ∨
        (takeTimes options now key extra buckets).2 k = (buckets k).filter (Bucket.isLive now) := by
  induction extra with
  | zero =>
    simp only [takeTimes, take, decideOn, openBucket_fst, Function.update_self, zero_add, true_and]
    intro k hk
    rw [Function.update_of_ne hk]
    exact openBucket_snd k
  | succ extra ih =>
    obtain ⟨hkey, -, hother⟩ := ih
    have hlive : ((takeTimes options now key extra buckets).2 key).filter (Bucket.isLive now) =
        some { count := counted now (buckets key) + (extra + 1), resetAt := windowEnd options now (buckets key) } := by
      rw [hkey]
      exact Option.filter_some_pos (decide_eq_true (lt_windowEnd (buckets key)))
    have hopen : openBucket options now key (takeTimes options now key extra buckets).2 =
        ({ count := counted now (buckets key) + (extra + 1), resetAt := windowEnd options now (buckets key) },
          (takeTimes options now key extra buckets).2) := by
      rw [openBucket, hlive]
    simp only [takeTimes, take, hopen, decideOn, Function.update_self, true_and, add_assoc]
    intro k hk
    rw [Function.update_of_ne hk]
    exact hother k hk

end Buckets

section Sums

variable {α : Type*} (cost : α → ℕ) (p q r : α → Bool)

def total (l : List α) : ℕ := ((l.filter p).map cost).sum

variable {p q r cost}

theorem total_append (l l' : List α) : total cost p (l ++ l') = total cost p l + total cost p l' := by
  simp [total]

theorem total_singleton_le (a : α) : total cost p [a] ≤ cost a := by
  rw [total, List.filter_cons]
  split_ifs <;> simp

theorem total_eq_zero {l : List α} (h : ∀ a ∈ l, p a = false) : total cost p l = 0 := by
  rw [total, List.filter_eq_nil_iff.mpr (by simpa using h), List.map_nil, List.sum_nil]

theorem total_le_add {l : List α} (h : ∀ a ∈ l, p a = true → q a = true ∨ r a = true) {charge : α → ℕ}
    (hcost : ∀ a, cost a ≤ charge a) : total cost p l ≤ total charge q l + total charge r l := by
  induction l with
  | nil => exact Nat.zero_le _
  | cons a l ih =>
    rw [List.forall_mem_cons] at h
    have hrest := ih h.2
    have ha := hcost a
    have hhead := h.1
    simp only [total] at hrest ⊢
    simp only [List.filter_cons]
    split_ifs with hp hq hr <;> simp_all only [List.map_cons, List.sum_cons] <;> grind

end Sums

section Accounts

def Admission.charge (admission : Admission) : ℕ := max 1 admission.cost

def ownedBy (principal : JsString) (className : RouteClass) (admission : Admission) : Bool :=
  admission.principalSubject = principal && admission.className = className

def Traffic.own (traffic : Traffic) (principal : JsString) (className : RouteClass) : List Admission :=
  traffic.admitted.filter (ownedBy principal className)

def within (start length : ℤ) (admission : Admission) : Bool :=
  start ≤ admission.now && admission.now < start + length

/-- Every interval of the given length holds at most the limit and one request of it more. -/
def Bounded (limit : ℕ) (length : ℤ) (own : List Admission) : Prop :=
  ∀ start, total Admission.cost (within start length) own ≤ limit ∨
    ∃ admission ∈ own, within start length admission = true ∧
      total Admission.cost (within start length) own ≤ limit + admission.cost

def spilled (options : FixedWindowOptions) (now : ℤ) (bucket : Option Bucket) (own : List Admission) : ℕ :=
  total Admission.charge (fun admission => now - options.windowMs < admission.now &&
    admission.now < windowEnd options now bucket - options.windowMs) own

structure Accounted (options : FixedWindowOptions) (now : ℤ) (bucket : Option Bucket) (own : List Admission) :
    Prop where
  past : ∀ admission ∈ own, admission.now ≤ now
  closed : bucket = none → ∀ admission ∈ own, admission.now < now
  ended : ∀ b, bucket = some b → ∀ admission ∈ own, admission.now < b.resetAt
  held : ∀ b, bucket = some b →
    total Admission.charge (fun admission => b.resetAt - options.windowMs ≤ admission.now) own ≤ b.count

variable {options : FixedWindowOptions} {now now' : ℤ} {bucket : Option Bucket} {own : List Admission}

theorem Accounted.later (h : Accounted options now bucket own) (hle : now ≤ now') :
    Accounted options now' bucket own where
  past admission hmem := (h.past admission hmem).trans hle
  closed hbucket admission hmem := (h.closed hbucket admission hmem).trans_le hle
  ended := h.ended
  held := h.held

theorem Accounted.filter (h : Accounted options now bucket own) :
    Accounted options now (bucket.filter (Bucket.isLive now)) own where
  past := h.past
  closed hfilter admission hmem := by
    cases hbucket : bucket with
    | none => exact h.closed hbucket admission hmem
    | some b =>
      rw [hbucket, Option.filter_eq_none_iff] at hfilter
      have hexpired := hfilter b rfl
      rw [Bucket.isLive, decide_eq_true_iff, not_lt] at hexpired
      exact (h.ended b hbucket admission hmem).trans_le hexpired
  ended b hfilter := h.ended b (Option.filter_eq_some_iff.mp hfilter).1
  held b hfilter := h.held b (Option.filter_eq_some_iff.mp hfilter).1

theorem Accounted.total_le_counted (h : Accounted options now bucket own) :
    (∀ admission ∈ own, admission.now < windowEnd options now bucket) ∧
      total Admission.charge (fun admission => windowEnd options now bucket - options.windowMs ≤ admission.now) own ≤
        counted now bucket := by
  have hfilter := h.filter
  unfold windowEnd counted
  cases hlive : bucket.filter (Bucket.isLive now) with
  | none =>
    have hbefore := hfilter.closed hlive
    refine ⟨fun admission hmem => ?_, ?_⟩
    · have := hbefore admission hmem
      simp only [Option.map_none, Option.getD_none]
      omega
    · rw [total_eq_zero]
      · exact Nat.zero_le _
      · intro admission hmem
        have := hbefore admission hmem
        rw [decide_eq_false_iff_not]
        simp only [Option.map_none, Option.getD_none]
        omega
  | some b => exact ⟨hfilter.ended b hlive, hfilter.held b hlive⟩

theorem Accounted.count (h : Accounted options now bucket own) {charge : ℕ} {admitted : List Admission}
    (hadmitted : admitted = [] ∨ ∃ admission, admitted = [admission] ∧ admission.now = now ∧
      admission.charge = charge) :
    Accounted options now
      (some { count := counted now bucket + charge, resetAt := windowEnd options now bucket }) (own ++ admitted) := by
  obtain ⟨hended, hheld⟩ := h.total_le_counted
  have hnow : ∀ admission ∈ admitted, admission.now = now := by
    obtain rfl | ⟨admission, rfl, hnow, -⟩ := hadmitted
    · simp
    · simpa using hnow
  refine ⟨?_, nofun, ?_, ?_⟩
  · intro admission hmem
    obtain hmem | hmem := List.mem_append.mp hmem
    · exact h.past admission hmem
    · exact (hnow admission hmem).le
  · rintro _ ⟨⟩ admission hmem
    obtain hmem | hmem := List.mem_append.mp hmem
    · exact hended admission hmem
    · rw [hnow admission hmem]
      exact lt_windowEnd bucket
  · rintro _ ⟨⟩
    rw [total_append]
    apply Nat.add_le_add hheld
    obtain rfl | ⟨admission, rfl, -, rfl⟩ := hadmitted
    · exact Nat.zero_le _
    · exact total_singleton_le _

theorem Bounded.admit (h : Bounded options.limit options.windowMs own) (account : Accounted options now bucket own)
    (hfits : spilled options now bucket own + counted now bucket ≤ options.limit) {admission : Admission}
    (hnow : admission.now = now) : Bounded options.limit options.windowMs (own ++ [admission]) := by
  intro start
  by_cases hwithin : within start options.windowMs admission = true
  · refine .inr ⟨admission, List.mem_concat_self, hwithin, ?_⟩
    have hsingle : total Admission.cost (within start options.windowMs) [admission] = admission.cost := by
      simp [total, hwithin]
    rw [total_append, hsingle]
    apply Nat.add_le_add_right
    refine le_trans ?_ hfits
    refine le_trans (total_le_add ?_ fun a => le_max_right 1 a.cost)
      (Nat.add_le_add_left account.total_le_counted.2 _)
    intro a ha ha'
    simp only [within, hnow, Bool.and_eq_true, decide_eq_true_eq] at hwithin ha' ⊢
    omega
  · have hsame : total Admission.cost (within start options.windowMs) (own ++ [admission]) =
        total Admission.cost (within start options.windowMs) own := by
      simp [total, List.filter_append, hwithin]
    rw [hsame]
    apply (h start).imp_right
    rintro ⟨a, ha, hrest⟩
    exact ⟨a, List.mem_append_left _ ha, hrest⟩

end Accounts

section Traffic

variable (toUpperCase : JsString → JsString)

/-- Every principal stays within the limit of every class, one request aside, in every interval. -/
def WithinLimits (traffic : Traffic) : Prop :=
  ∀ principal className, Bounded (traffic.limiters.options className).limit
    (traffic.limiters.options className).windowMs (traffic.own principal className)

/-- A request that its window has room for also finds room for it beside what earlier windows let through less than a
window's length ago. -/
def Spared (traffic : Traffic) (call : RateCall) : Prop :=
  let className := call.className toUpperCase
  let options := traffic.limiters.options className
  let bucket := traffic.limiters.buckets className call.principalSubject
  counted call.now bucket + max 1 (call.cost toUpperCase) ≤ options.limit →
    spilled options call.now bucket (traffic.own call.principalSubject className) + counted call.now bucket ≤
      options.limit

def Kept (now : ℤ) (traffic : Traffic) : Prop :=
  ∀ principal className, Accounted (traffic.limiters.options className) now
      (traffic.limiters.buckets className principal) (traffic.own principal className) ∧
    Bounded (traffic.limiters.options className).limit (traffic.limiters.options className).windowMs
      (traffic.own principal className)

theorem bounded_nil (limit : ℕ) (length : ℤ) : Bounded limit length [] := fun _ => .inl (Nat.zero_le _)

theorem kept_start (policies : RouteClass → RateLimitPolicy) (now : ℤ) : Kept now (.start policies) := by
  intro principal className
  refine ⟨⟨?_, ?_, nofun, nofun⟩, bounded_nil _ _⟩
  · exact fun _ h => absurd h List.not_mem_nil
  · exact fun _ _ h => absurd h List.not_mem_nil

variable {toUpperCase} {traffic : Traffic} {call : RateCall} {now : ℤ}

@[simp] theorem options_step (className : RouteClass) :
    (traffic.step toUpperCase call).limiters.options className = traffic.limiters.options className := rfl

def RateCall.bucket (toUpperCase : JsString → JsString) (call : RateCall) (traffic : Traffic) : Option Bucket :=
  traffic.limiters.buckets (call.className toUpperCase) call.principalSubject

def RateCall.options (toUpperCase : JsString → JsString) (call : RateCall) (traffic : Traffic) : FixedWindowOptions :=
  traffic.limiters.options (call.className toUpperCase)

theorem takes_spec :
    (takeTimes (call.options toUpperCase traffic) call.now call.principalSubject (call.cost toUpperCase - 1)
        (traffic.limiters.buckets (call.className toUpperCase))).2 call.principalSubject =
      some { count := counted call.now (call.bucket toUpperCase traffic) + max 1 (call.cost toUpperCase),
             resetAt := windowEnd (call.options toUpperCase traffic) call.now (call.bucket toUpperCase traffic) } ∧
    (takeTimes (call.options toUpperCase traffic) call.now call.principalSubject (call.cost toUpperCase - 1)
        (traffic.limiters.buckets (call.className toUpperCase))).1.allowed =
      decide (counted call.now (call.bucket toUpperCase traffic) + max 1 (call.cost toUpperCase) ≤
        (call.options toUpperCase traffic).limit) := by
  have hunits : call.cost toUpperCase - 1 + 1 = max 1 (call.cost toUpperCase) := by omega
  obtain ⟨hbucket, hallowed, -⟩ := @takeTimes_spec (call.options toUpperCase traffic) call.now
    call.principalSubject (traffic.limiters.buckets (call.className toUpperCase)) (call.cost toUpperCase - 1)
  rw [hunits] at hbucket hallowed
  exact ⟨hbucket, hallowed⟩

theorem own_step (principal : JsString) (className : RouteClass) :
    (traffic.step toUpperCase call).own principal className = traffic.own principal className ++
      if counted call.now (call.bucket toUpperCase traffic) + max 1 (call.cost toUpperCase) ≤
          (call.options toUpperCase traffic).limit ∧
        call.principalSubject = principal ∧ call.className toUpperCase = className
      then [call.admission toUpperCase] else [] := by
  have hadmitted : (traffic.step toUpperCase call).admitted =
      if decide (counted call.now (call.bucket toUpperCase traffic) + max 1 (call.cost toUpperCase) ≤
          (call.options toUpperCase traffic).limit) = true
      then traffic.admitted ++ [call.admission toUpperCase] else traffic.admitted := by
    rw [← takes_spec.2]
    rfl
  rw [Traffic.own, Traffic.own, hadmitted]
  have howned : ownedBy principal className (call.admission toUpperCase) = true ↔
      call.principalSubject = principal ∧ call.className toUpperCase = className := by
    simp only [ownedBy, RateCall.admission, Bool.and_eq_true]
    exact and_congr decide_eq_true_iff decide_eq_true_iff
  simp only [decide_eq_true_eq]
  by_cases hfits : counted call.now (call.bucket toUpperCase traffic) + max 1 (call.cost toUpperCase) ≤
      (call.options toUpperCase traffic).limit
  · rw [if_pos hfits, List.filter_append, List.filter_cons, List.filter_nil]
    simp only [howned, hfits, true_and]
  · rw [if_neg hfits, if_neg (fun h => hfits h.1), List.append_nil]

theorem buckets_step :
    (traffic.step toUpperCase call).limiters.buckets (call.className toUpperCase) call.principalSubject =
        some { count := counted call.now (call.bucket toUpperCase traffic) + max 1 (call.cost toUpperCase),
               resetAt := windowEnd (call.options toUpperCase traffic) call.now (call.bucket toUpperCase traffic) } ∧
      ∀ principal className, ¬ (call.principalSubject = principal ∧ call.className toUpperCase = className) →
        (traffic.step toUpperCase call).limiters.buckets className principal =
            traffic.limiters.buckets className principal ∨
          (traffic.step toUpperCase call).limiters.buckets className principal =
            (traffic.limiters.buckets className principal).filter (Bucket.isLive call.now) := by
  have hbuckets : (traffic.step toUpperCase call).limiters.buckets =
      Function.update traffic.limiters.buckets (call.className toUpperCase)
        (takeTimes (call.options toUpperCase traffic) call.now call.principalSubject (call.cost toUpperCase - 1)
          (traffic.limiters.buckets (call.className toUpperCase))).2 := rfl
  rw [hbuckets]
  constructor
  · rw [Function.update_self]
    exact takes_spec.1
  · intro principal className hother
    by_cases hclass : className = call.className toUpperCase
    · subst hclass
      rw [Function.update_self]
      exact (takeTimes_spec _).2.2 principal fun h => hother ⟨h.symm, rfl⟩
    · rw [Function.update_of_ne hclass]
      exact .inl rfl

theorem Kept.step (h : Kept now traffic) (hnow : now ≤ call.now) (spared : Spared toUpperCase traffic call) :
    Kept call.now (traffic.step toUpperCase call) := by
  intro principal className
  obtain ⟨account, bounded⟩ := h principal className
  have account := account.later hnow
  obtain ⟨hself, hother⟩ := @buckets_step toUpperCase traffic call
  rw [options_step, own_step]
  by_cases hkey : call.principalSubject = principal ∧ call.className toUpperCase = className
  · obtain ⟨rfl, rfl⟩ := hkey
    rw [hself]
    by_cases hfits : counted call.now (call.bucket toUpperCase traffic) + max 1 (call.cost toUpperCase) ≤
        (call.options toUpperCase traffic).limit
    · rw [if_pos ⟨hfits, rfl, rfl⟩]
      exact ⟨account.count (.inr ⟨_, rfl, rfl, rfl⟩), bounded.admit account (spared hfits) rfl⟩
    · rw [if_neg (fun h => hfits h.1), List.append_nil]
      have hcount := @Accounted.count _ _ _ _ account (max 1 (call.cost toUpperCase)) [] (.inl rfl)
      rw [List.append_nil] at hcount
      exact ⟨hcount, bounded⟩
  · rw [if_neg (fun h => hkey h.2), List.append_nil]
    refine ⟨?_, bounded⟩
    obtain heq | heq := hother principal className hkey
    · rw [heq]
      exact account
    · rw [heq]
      exact account.filter

theorem Kept.always {calls : List RateCall} (h : Kept now traffic) (hnow : ∀ call ∈ calls, now ≤ call.now)
    (ordered : calls.Pairwise fun a b => a.now ≤ b.now)
    (spared : EachStep (Traffic.step toUpperCase) (Spared toUpperCase) traffic calls) :
    Always (Traffic.step toUpperCase) WithinLimits traffic calls := by
  have hlimits : WithinLimits traffic := fun principal className => (h principal className).2
  induction calls generalizing traffic now with
  | nil => exact hlimits
  | cons call calls ih =>
    rw [List.forall_mem_cons] at hnow
    rw [List.pairwise_cons] at ordered
    have hstep := h.step hnow.1 spared.1
    exact ⟨hlimits, ih hstep ordered.1 ordered.2 spared.2 fun principal className => (hstep principal className).2⟩

end Traffic

theorem window_slides (toUpperCase : JsString → JsString) (policies : RouteClass → RateLimitPolicy)
    (calls : List RateCall) (ordered : calls.Pairwise fun a b => a.now ≤ b.now)
    (spared : EachStep (Traffic.step toUpperCase) (Spared toUpperCase) (.start policies) calls) :
    Always (Traffic.step toUpperCase) WithinLimits (.start policies) calls := by
  cases calls with
  | nil => exact fun principal className => (kept_start policies 0 principal className).2
  | cons call calls =>
    have hnow : ∀ later ∈ call :: calls, call.now ≤ later.now := by
      rw [List.forall_mem_cons]
      exact ⟨le_rfl, (List.pairwise_cons.mp ordered).1⟩
    exact (kept_start policies call.now).always hnow ordered spared

section Sample

def sampleCall (method pathname : String) (now : ℤ) : RateCall where
  policies := rateLimitPolicies
  principalSubject := ofString "api-key:tok_abc"
  method := ofString method
  pathname := ofString pathname
  now := now

theorem hourly_bursts_slide :
    Always (Traffic.step id) WithinLimits (.start rateLimitPolicies)
      [sampleCall "POST" "/api/runs" 0, sampleCall "POST" "/api/runs" 0, sampleCall "POST" "/api/runs" 3600000] := by
  apply window_slides id rateLimitPolicies
  · decide
  · refine ⟨?_, ?_, ?_, trivial⟩ <;> unfold Spared <;> decide +kernel

def boundaryBurst : List RateCall :=
  sampleCall "GET" "/api/auth/github" 0 :: List.replicate 19 (sampleCall "GET" "/api/auth/github" 59999) ++
    List.replicate 20 (sampleCall "GET" "/api/auth/github" 60000)

theorem boundary_burst_exceeds :
    (boundaryBurst.Pairwise fun a b => a.now ≤ b.now) ∧
      ¬ Always (Traffic.step id) WithinLimits (.start rateLimitPolicies) boundaryBurst := by
  constructor
  · decide +kernel
  · intro h
    have hfinal := h.run (ofString "api-key:tok_abc") .auth 59999
    revert hfinal
    decide +kernel

end Sample

end CrashLab.RateLimit
