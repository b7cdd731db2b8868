import Mathlib.Tactic

namespace CrashLab.Delimited

variable {α : Type*}

def terminate (sep : α) (lines : List (List α)) : List α := lines.flatMap (· ++ [sep])

@[simp] theorem terminate_nil (sep : α) : terminate sep [] = [] := rfl

@[simp] theorem terminate_cons (sep : α) (line : List α) (lines : List (List α)) :
    terminate sep (line :: lines) = line ++ sep :: terminate sep lines := by
  simp only [terminate, List.flatMap_cons, List.append_assoc, List.singleton_append]

@[simp] theorem terminate_append (sep : α) (lines lines' : List (List α)) :
    terminate sep (lines ++ lines') = terminate sep lines ++ terminate sep lines' :=
  List.flatMap_append

theorem cut_unique [DecidableEq α] {sep : α} {a b r s : List α} (h : a ++ sep :: r = b ++ sep :: s)
    (hcount : a.count sep = b.count sep) : a = b ∧ r = s := by
  induction a generalizing b with
  | nil =>
    cases b with
    | nil => exact ⟨rfl, (List.cons.inj h).2⟩
    | cons x b =>
      have hx : sep = x := (List.cons.inj h).1
      rw [← hx, List.count_nil, List.count_cons_self] at hcount
      omega
  | cons x a ih =>
    cases b with
    | nil =>
      have hx : x = sep := (List.cons.inj h).1
      rw [hx, List.count_nil, List.count_cons_self] at hcount
      omega
    | cons y b =>
      obtain ⟨rfl, hrest⟩ := List.cons.inj h
      have hcount' : a.count sep = b.count sep := by
        rw [List.count_cons, List.count_cons] at hcount
        omega
      obtain ⟨rfl, rfl⟩ := ih hrest hcount'
      exact ⟨rfl, rfl⟩

theorem cut_unique_of_not_mem [DecidableEq α] {sep : α} {a b r s : List α} (ha : sep ∉ a) (hb : sep ∉ b)
    (h : a ++ sep :: r = b ++ sep :: s) : a = b ∧ r = s := by
  apply cut_unique h
  rw [List.count_eq_zero_of_not_mem ha, List.count_eq_zero_of_not_mem hb]

theorem terminate_injective [DecidableEq α] {sep : α} {lines lines' : List (List α)}
    (hl : ∀ line ∈ lines, sep ∉ line) (hl' : ∀ line ∈ lines', sep ∉ line)
    (h : terminate sep lines = terminate sep lines') : lines = lines' := by
  induction lines generalizing lines' with
  | nil =>
    cases lines' with
    | nil => rfl
    | cons line' lines' => simp at h
  | cons line lines ih =>
    cases lines' with
    | nil => simp at h
    | cons line' lines' =>
      rw [terminate_cons, terminate_cons] at h
      rw [List.forall_mem_cons] at hl hl'
      obtain ⟨rfl, hrest⟩ := cut_unique_of_not_mem hl.1 hl'.1 h
      rw [ih hl.2 hl'.2 hrest]

theorem last_cut_unique [DecidableEq α] {sep : α} {a b r s : List α} (hr : sep ∉ r) (hs : sep ∉ s)
    (h : a ++ sep :: r = b ++ sep :: s) : a = b ∧ r = s := by
  have hreverse : r.reverse ++ sep :: a.reverse = s.reverse ++ sep :: b.reverse := by
    have := congrArg List.reverse h
    simpa using this
  obtain ⟨hrs, hab⟩ := cut_unique_of_not_mem (by simpa using hr) (by simpa using hs) hreverse
  exact ⟨List.reverse_injective hab, List.reverse_injective hrs⟩

def Framed : List (List α → Prop) → List (List α) → Prop
  | [], [] => True
  | start :: starts, block :: blocks =>
    block ≠ [] ∧ start (block ++ blocks.flatten) ∧ Framed starts blocks
  | _, _ => False

def Quiet : List (List α → Prop) → List (List α) → Prop
  | start :: starts, block :: blocks =>
    (∀ before after, block = before ++ after → before ≠ [] → after ≠ [] →
      ¬start (after ++ blocks.flatten) ∧ ∀ next ∈ starts.head?, ¬next (after ++ blocks.flatten)) ∧
    Quiet starts blocks
  | _, _ => True

theorem blocks_unique {starts : List (List α → Prop)} {blocks blocks' : List (List α)} {x x' : List α}
    (hframed : Framed starts blocks) (hframed' : Framed starts blocks') (hquiet : Quiet starts blocks)
    (hlen : x.length ≤ x'.length) (h : x ++ blocks.flatten = x' ++ blocks'.flatten) :
    x = x' ∧ blocks = blocks' := by
  induction starts generalizing blocks blocks' x x' with
  | nil =>
    cases blocks with
    | cons b bs => exact hframed.elim
    | nil =>
      cases blocks' with
      | cons b' bs' => exact hframed'.elim
      | nil => exact ⟨by simpa using h, rfl⟩
  | cons start starts ih =>
    cases blocks with
    | nil => exact hframed.elim
    | cons b bs =>
      cases blocks' with
      | nil => exact hframed'.elim
      | cons b' bs' =>
        obtain ⟨_, _, hbs⟩ := hframed
        obtain ⟨hb', hstart', hbs'⟩ := hframed'
        obtain ⟨hinside, hrest⟩ := hquiet
        rw [List.flatten_cons, List.flatten_cons, ← List.append_assoc, ← List.append_assoc] at h
        obtain ⟨y, rfl⟩ : ∃ y, x' = x ++ y := by
          rw [List.append_assoc, List.append_assoc] at h
          exact (List.prefix_of_prefix_length_le ⟨_, h⟩ (List.prefix_append _ _) hlen).imp fun y hy => hy.symm
        have hnext : (x ++ b).length ≤ (x ++ y ++ b').length := by
          by_contra hlt
          obtain ⟨w, hw, hflat⟩ : ∃ w, x ++ b = x ++ y ++ b' ++ w ∧ bs'.flatten = w ++ bs.flatten := by
            rcases List.append_eq_append_iff.mp h with ⟨w, hw, _⟩ | ⟨w, hw, hflat⟩
            · have hlonger := congrArg List.length hw
              rw [@List.length_append _ _ w] at hlonger
              omega
            · exact ⟨w, hw, hflat⟩
          have hwne : w ≠ [] := by
            rintro rfl
            rw [List.append_nil] at hw
            rw [hw] at hlt
            exact hlt le_rfl
          have hb : b = (y ++ b') ++ w := by
            rw [List.append_assoc, List.append_assoc] at hw
            rw [List.append_assoc]
            exact List.append_cancel_left hw
          obtain ⟨_, hnot⟩ := hinside (y ++ b') w hb (by simp [hb']) hwne
          cases starts with
          | nil =>
            cases bs' with
            | nil =>
              rw [List.flatten_nil, eq_comm, List.append_eq_nil_iff] at hflat
              exact hwne hflat.1
            | cons c cs => exact hbs'.elim
          | cons next starts =>
            cases bs' with
            | nil => exact hbs'.elim
            | cons c cs =>
              apply hnot next rfl
              rw [← hflat]
              exact hbs'.2.1
        obtain ⟨hxb, rfl⟩ := ih hbs hbs' hrest hnext h
        have hb : b = y ++ b' := by
          rw [List.append_assoc] at hxb
          exact List.append_cancel_left hxb
        by_cases hy : y = []
        · subst hy
          rw [List.append_nil, hb, List.nil_append]
          exact ⟨rfl, rfl⟩
        · exact absurd hstart' (hinside y b' hb hy hb').1

theorem prefix_stays_inside {sep : α} {key after rest : List α} (hkey : sep ∉ key) (hafter : after ≠ [])
    (hrest : ∀ c ∈ rest.head?, c = sep) (h : (sep :: key) <+: after ++ rest) : (sep :: key) <+: after := by
  obtain ⟨tail, htail⟩ := h
  rcases List.append_eq_append_iff.mp htail with ⟨more, hmore, _⟩ | ⟨more, hmore, hhead⟩
  · exact ⟨more, hmore.symm⟩
  · cases more with
    | nil => exact ⟨[], by rw [hmore, List.append_nil, List.append_nil]⟩
    | cons c more =>
      exfalso
      have hc : c = sep := by
        apply hrest
        rw [hhead]
        rfl
      cases after with
      | nil => exact hafter rfl
      | cons a after =>
        apply hkey
        rw [(List.cons.inj hmore).2, hc]
        simp

theorem split_past {sep : α} {clear value before tail : List α} (hclear : sep ∉ clear)
    (h : clear ++ value = before ++ sep :: tail) :
    ∃ inner, before = clear ++ inner ∧ value = inner ++ sep :: tail := by
  rcases List.append_eq_append_iff.mp h with ⟨inner, hbefore, hvalue⟩ | ⟨more, hmore, hvalue⟩
  · exact ⟨inner, hbefore, hvalue⟩
  · cases more with
    | nil => exact ⟨[], by rw [hmore, List.append_nil, List.append_nil], hvalue.symm⟩
    | cons c more =>
      have hc : sep = c := (List.cons.inj hvalue).1
      exact absurd (by rw [hmore, hc]; simp) hclear

theorem prefix_pair_stays_inside {sep : α} {m m' after rest : List α} (hm : sep ∉ m) (hm' : sep ∉ m')
    (hafter : after ≠ []) (hrest : ∀ c ∈ rest.head?, c = sep) (hnot : ¬(sep :: m') <+: rest)
    (h : (sep :: m ++ sep :: m') <+: after ++ rest) : (sep :: m ++ sep :: m') <+: after := by
  have hfirst : (sep :: m) <+: after :=
    prefix_stays_inside hm hafter hrest ((List.prefix_append _ _).trans h)
  obtain ⟨w, rfl⟩ := hfirst
  rw [List.append_assoc, List.prefix_append_right_inj] at h
  rw [List.prefix_append_right_inj]
  by_cases hw : w = []
  · subst hw
    exact absurd h hnot
  · exact prefix_stays_inside hm' hw hrest h

theorem infix_past_mark {sep : α} {mark value m : List α} (hmark : sep ∉ mark)
    (hnot : ¬m <+: mark ++ value) (h : (sep :: m) <:+: sep :: (mark ++ value)) : (sep :: m) <:+: value := by
  obtain ⟨before, tail, h⟩ := h
  cases before with
  | nil => exact absurd ⟨tail, (List.cons.inj h).2⟩ hnot
  | cons c before =>
    have hrest : mark ++ value = before ++ sep :: (m ++ tail) := by
      rw [List.append_assoc] at h
      exact (List.cons.inj h).2.symm
    obtain ⟨inner, _, hvalue⟩ := split_past hmark hrest
    exact ⟨inner, tail, by rw [hvalue, List.append_assoc]; rfl⟩

theorem infix_of_inside {sep : α} {mark value m before after : List α} (hmark : sep ∉ mark)
    (hblock : sep :: (mark ++ value) = before ++ after) (hbefore : before ≠ [])
    (h : (sep :: m) <+: after) : (sep :: m) <:+: value := by
  obtain ⟨tail, rfl⟩ := h
  cases before with
  | nil => exact absurd rfl hbefore
  | cons c before =>
    obtain ⟨inner, _, hvalue⟩ := split_past hmark (List.cons.inj hblock).2
    exact ⟨inner, tail, by rw [hvalue, List.append_assoc]; rfl⟩

theorem exists_recut {marker marker' a b : List α} (hmarker : marker ≠ []) (hmarker' : marker' ≠ [])
    (h : marker' <:+: a ∨ marker' <:+: b) :
    ∃ a' b', a' ≠ a ∧ a' ++ marker' ++ b' = a ++ marker ++ b := by
  have hpos := List.length_pos_iff.mpr hmarker
  have hpos' := List.length_pos_iff.mpr hmarker'
  rcases h with ⟨u, v, rfl⟩ | ⟨u, v, rfl⟩
  · refine ⟨u, v ++ marker ++ b, ?_, by simp only [List.append_assoc]⟩
    intro heq
    have := congrArg List.length heq
    simp only [List.length_append] at this
    omega
  · refine ⟨a ++ marker ++ u, v, ?_, by simp only [List.append_assoc]⟩
    intro heq
    have := congrArg List.length heq
    simp only [List.length_append] at this
    omega

section Recuts

def joined : List (List α) → List (List α) → List α
  | _, [] => []
  | [], value :: _ => value
  | mark :: marks, value :: values => value ++ mark ++ joined marks values

inductive Recut : List (List α) → List (List α) → List (List α) → Prop
  | here {mark : List α} {marks : List (List α)} (x y z : List α) (values : List (List α)) :
      Recut (mark :: marks) (x :: (y ++ mark ++ z) :: values) ((x ++ mark ++ y) :: z :: values)
  | later {mark value : List α} {marks values values' : List (List α)} (rest : Recut marks values values') :
      Recut (mark :: marks) (value :: values) (value :: values')

def Unbordered (mark : List α) : Prop := ∀ i < mark.length, 0 < i → ¬mark.drop i <+: mark

instance [DecidableEq α] (mark : List α) : Decidable (Unbordered mark) :=
  inferInstanceAs (Decidable (∀ i < mark.length, 0 < i → ¬mark.drop i <+: mark))

theorem Unbordered.past {mark before rest rest' : List α} (h : Unbordered mark) (hbefore : before ≠ [])
    (heq : mark ++ rest = before ++ mark ++ rest') : ∃ inner, before = mark ++ inner ∧ rest = inner ++ mark ++ rest' := by
  rw [List.append_assoc] at heq
  rcases List.append_eq_append_iff.mp heq with ⟨inner, hinner, hrest⟩ | ⟨inner, hinner, hrest⟩
  · exact ⟨inner, hinner, by rw [hrest, List.append_assoc]⟩
  · by_cases hall : inner = []
    · subst hall
      exact ⟨[], by rw [hinner, List.append_nil, List.append_nil], by simpa using hrest.symm⟩
    · exfalso
      have hpos := List.length_pos_of_ne_nil hbefore
      have hleft := List.length_pos_of_ne_nil hall
      have hlength : before.length < mark.length := by
        rw [hinner, List.length_append]
        omega
      apply h before.length hlength hpos
      have hdrop : mark.drop before.length = inner := by rw [hinner, List.drop_left]
      rw [hdrop]
      have hinside : inner <+: mark ++ rest' := ⟨rest, hrest.symm⟩
      apply List.prefix_of_prefix_length_le hinside (List.prefix_append mark rest')
      rw [hinner, List.length_append]
      omega

theorem Recut.joined_eq {marks values values' : List (List α)} (h : Recut marks values values') :
    joined marks values = joined marks values' := by
  induction h with
  | @here mark marks x y z values =>
    cases marks with
    | nil => simp [joined, List.append_assoc]
    | cons next marks => simp [joined, List.append_assoc]
  | later rest ih => rw [joined, joined, ih]

theorem Recut.later_eqvGen {mark value : List α} {marks values values' : List (List α)}
    (h : Relation.EqvGen (Recut marks) values values') :
    Relation.EqvGen (Recut (mark :: marks)) (value :: values) (value :: values') := by
  induction h with
  | rel _ _ h => exact .rel _ _ (.later h)
  | refl _ => exact .refl _
  | symm _ _ _ ih => exact ih.symm
  | trans _ _ _ _ _ ih ih' => exact ih.trans _ _ _ ih'

theorem joined_eq_of_eqvGen {marks values values' : List (List α)}
    (h : Relation.EqvGen (Recut marks) values values') : joined marks values = joined marks values' := by
  induction h with
  | rel _ _ h => exact h.joined_eq
  | refl _ => rfl
  | symm _ _ _ ih => exact ih.symm
  | trans _ _ _ _ _ ih ih' => exact ih.trans ih'

theorem recut_of_shorter {mark a b : List α} {marks as bs : List (List α)} (hmark : Unbordered mark)
    (ih : ∀ values values' : List (List α), values.length = marks.length + 1 → values'.length = marks.length + 1 →
      joined marks values = joined marks values' → Relation.EqvGen (Recut marks) values values')
    (has : as.length = marks.length + 1) (hbs : bs.length = marks.length + 1) (hle : a.length ≤ b.length)
    (h : a ++ mark ++ joined marks as = b ++ mark ++ joined marks bs) :
    Relation.EqvGen (Recut (mark :: marks)) (a :: as) (b :: bs) := by
  obtain ⟨more, rfl⟩ : ∃ more, b = a ++ more := by
    rw [List.append_assoc, List.append_assoc] at h
    exact (List.prefix_of_prefix_length_le ⟨_, h⟩ (List.prefix_append _ _) hle).imp fun more hmore => hmore.symm
  rw [List.append_assoc, List.append_assoc, List.append_assoc, List.append_cancel_left_eq, ← List.append_assoc] at h
  by_cases hmore : more = []
  · subst hmore
    rw [List.nil_append, List.append_cancel_left_eq] at h
    rw [List.append_nil]
    exact Recut.later_eqvGen (ih as bs has hbs h)
  · obtain ⟨inner, rfl, hrest⟩ := hmark.past hmore h
    cases bs with
    | nil => cases hbs
    | cons z bs =>
      have hjoined : joined marks ((inner ++ mark ++ z) :: bs) = inner ++ mark ++ joined marks (z :: bs) := by
        cases marks with
        | nil => rfl
        | cons next marks => simp only [joined, List.append_assoc]
      have hrecut : Relation.EqvGen (Recut (mark :: marks)) (a :: as) (a :: (inner ++ mark ++ z) :: bs) :=
        Recut.later_eqvGen (ih as ((inner ++ mark ++ z) :: bs) has hbs (hrest.trans hjoined.symm))
      rw [← List.append_assoc]
      exact hrecut.trans _ _ _ (.rel _ _ (.here a inner z bs))

theorem joined_eq_iff {marks : List (List α)} (hmarks : ∀ mark ∈ marks, Unbordered mark) {values values' : List (List α)}
    (h : values.length = marks.length + 1) (h' : values'.length = marks.length + 1) :
    joined marks values = joined marks values' ↔ Relation.EqvGen (Recut marks) values values' := by
  constructor
  · induction marks generalizing values values' with
    | nil =>
      intro heq
      obtain ⟨value, rfl⟩ := List.length_eq_one_iff.mp h
      obtain ⟨value', rfl⟩ := List.length_eq_one_iff.mp h'
      have hvalue : value = value' := heq
      rw [hvalue]
      exact .refl _
    | cons mark marks ih =>
      intro heq
      have hrest (values values' : List (List α)) (h : values.length = marks.length + 1)
          (h' : values'.length = marks.length + 1) (heq : joined marks values = joined marks values') :=
        ih (fun m hm => hmarks m (List.mem_cons_of_mem _ hm)) h h' heq
      have hmark := hmarks mark List.mem_cons_self
      cases values with
      | nil => cases h
      | cons a as =>
        cases values' with
        | nil => cases h'
        | cons b bs =>
          have has := Nat.succ.inj h
          have hbs := Nat.succ.inj h'
          rcases Nat.le_total a.length b.length with hle | hle
          · exact recut_of_shorter hmark hrest has hbs hle heq
          · exact (recut_of_shorter hmark hrest hbs has hle heq.symm).symm
  · exact joined_eq_of_eqvGen

end Recuts

end CrashLab.Delimited
