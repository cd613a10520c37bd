import Harmony.Lib.Sorted

/-! Slices of an ascending list. Binary search for a bound cuts an ascending list
where a filter would, so a half-open slice holds exactly the elements between its
bounds; sorting and dropping repeats gives the ascending list of a set. -/

namespace Harmony.Lib

variable {α κ : Type}

/-- `slice::partition_point`: the length of the leading run that satisfies `p`. -/
def partitionPoint (p : α → Bool) (l : List α) : ℕ := (l.takeWhile p).length

theorem partitionPoint_map {β : Type} (f : β → α) (p : α → Bool) (l : List β) :
    partitionPoint p (l.map f) = partitionPoint (fun b => p (f b)) l := by
  simp [partitionPoint, List.takeWhile_map, Function.comp_def]

/-- The element at the partition point, or the last one if there is none there. -/
theorem exists_at_partitionPoint (p : α → Bool) {l : List α} (hne : l ≠ []) :
    ∃ pre a post, l = pre ++ a :: post ∧
      pre.length = (if partitionPoint p l = l.length then partitionPoint p l - 1
        else partitionPoint p l) ∧
      (∀ b ∈ pre, p b = true) ∧ (post ≠ [] → p a = false) := by
  have hsplit : l.takeWhile p ++ l.dropWhile p = l := List.takeWhile_append_dropWhile
  have hall : ∀ b ∈ l.takeWhile p, p b = true := fun b hb => List.mem_takeWhile_imp hb
  by_cases hfull : partitionPoint p l = l.length
  · rw [if_pos hfull, hfull]
    rcases List.eq_nil_or_concat' l with rfl | ⟨init, a, rfl⟩
    · exact absurd rfl hne
    · have hpre : (init ++ [a]).takeWhile p = init ++ [a] :=
        (List.takeWhile_prefix p).eq_of_length hfull
      refine ⟨init, a, [], rfl, by simp, fun b hb => hall b ?_, fun h => absurd rfl h⟩
      rw [hpre]
      exact List.mem_append_left _ hb
  · rw [if_neg hfull]
    cases hd : l.dropWhile p with
    | nil =>
      rw [hd, List.append_nil] at hsplit
      exact absurd (congrArg List.length hsplit) hfull
    | cons a post =>
      refine ⟨l.takeWhile p, a, post, by rw [← hd, hsplit], rfl, hall, fun _ => ?_⟩
      have hhead := List.head?_dropWhile_not p l
      rwa [hd] at hhead

variable [LinearOrder κ] {key : α → κ}

def Ascending (key : α → κ) (l : List α) : Prop := l.Pairwise fun a b => key a < key b

theorem Ascending.sublist {l l' : List α} (h : Ascending key l) (hs : l'.Sublist l) :
    Ascending key l' := List.Pairwise.sublist hs h

theorem Ascending.keyNodup {l : List α} (h : Ascending key l) : KeyNodup key l :=
  List.pairwise_map.mpr (h.imp fun hlt => ne_of_lt hlt)

/-- An ascending list is determined by its elements. -/
theorem Ascending.ext {l l' : List α} (h : Ascending key l) (h' : Ascending key l')
    (hm : ∀ a, a ∈ l ↔ a ∈ l') : l = l' := by
  have hp : l.Perm l' :=
    (List.perm_ext_iff_of_nodup h.keyNodup.of_map h'.keyNodup.of_map).mpr hm
  exact List.Perm.eq_of_pairwise (fun _ _ _ _ hab hba => absurd hba (lt_asymm hab)) h h' hp

/-- `&l[s..e.max(s)]` for the partition points `s` of `lo` and `e` of `hi`. -/
def slice (key : α → κ) (lo hi : κ) (l : List α) : List α :=
  let s := partitionPoint (fun a => decide (key a < lo)) l
  let e := partitionPoint (fun a => decide (key a < hi)) l
  (l.take (max e s)).drop s

def within (key : α → κ) (lo hi : κ) (l : List α) : List α :=
  l.filter fun a => decide (lo ≤ key a ∧ key a < hi)

theorem mem_within {l : List α} {lo hi : κ} {a : α} :
    a ∈ within key lo hi l ↔ a ∈ l ∧ lo ≤ key a ∧ key a < hi := by
  simp [within]

theorem within_sublist (lo hi : κ) (l : List α) : (within key lo hi l).Sublist l :=
  List.filter_sublist

@[simp] theorem partitionPoint_cons (p : α → Bool) (a : α) (l : List α) :
    partitionPoint p (a :: l) = if p a then partitionPoint p l + 1 else 0 := by
  unfold partitionPoint
  rw [List.takeWhile_cons]
  split <;> rfl

theorem partitionPoint_eq_zero {p : α → Bool} {l : List α} (h : ∀ a ∈ l, p a = false) :
    partitionPoint p l = 0 := by
  cases l with
  | nil => rfl
  | cons a l => simp [h a (by simp)]

theorem slice_eq_within {l : List α} (h : Ascending key l) (lo hi : κ) :
    slice key lo hi l = within key lo hi l := by
  induction l with
  | nil => simp [slice, within]
  | cons a l ih =>
    obtain ⟨hhead, htail⟩ := List.pairwise_cons.mp h
    have ih := ih htail
    simp only [slice, within, List.filter_cons, partitionPoint_cons, decide_eq_true_eq] at ih ⊢
    rcases lt_or_ge (key a) hi with hhi | hhi
    · rcases lt_or_ge (key a) lo with hlo | hlo
      · simpa [hlo, hhi, not_le.mpr hlo, Nat.add_max_add_right] using ih
      · have hs : partitionPoint (fun b => decide (key b < lo)) l = 0 :=
          partitionPoint_eq_zero fun b hb => by simpa using hlo.trans (hhead b hb).le
        rw [hs] at ih
        simpa [hhi, hlo, not_lt.mpr hlo] using ih
    · -- everything from `a` on lies past `hi`
      have hnil : l.filter (fun b => decide (lo ≤ key b ∧ key b < hi)) = [] :=
        List.filter_eq_nil_iff.mpr fun b hb hw =>
          absurd (of_decide_eq_true hw).2 (not_lt.mpr (hhi.trans (hhead b hb).le))
      simpa [not_lt.mpr hhi] using hnil

theorem Ascending.within {l : List α} (h : Ascending key l) (lo hi : κ) :
    Ascending key (within key lo hi l) := h.sublist (within_sublist lo hi l)

/-- A slice is the concatenation of its two parts at any bound in between. -/
theorem within_append {l : List α} (h : Ascending key l) {lo mid hi : κ} (hlo : lo ≤ mid)
    (hhi : mid ≤ hi) :
    Lib.within key lo hi l = Lib.within key lo mid l ++ Lib.within key mid hi l := by
  refine (h.within lo hi).ext ?_ fun a => ?_
  · refine List.pairwise_append.mpr ⟨h.within lo mid, h.within mid hi, fun a ha b hb => ?_⟩
    exact (mem_within.mp ha).2.2.trans_le (mem_within.mp hb).2.1
  · simp only [List.mem_append, mem_within]
    constructor
    · rintro ⟨ha, hl, hh⟩
      rcases lt_or_ge (key a) mid with hm | hm
      · exact Or.inl ⟨ha, hl, hm⟩
      · exact Or.inr ⟨ha, hm, hh⟩
    · rintro (⟨ha, hl, hm⟩ | ⟨ha, hm, hh⟩)
      · exact ⟨ha, hl, hm.trans_le hhi⟩
      · exact ⟨ha, hlo.trans hm, hh⟩

/-- Cutting a slice at the key of one of its elements cuts the list there. -/
theorem within_cut {l pre post : List α} {a : α} (h : Ascending key l) {lo hi : κ}
    (hs : Lib.within key lo hi l = pre ++ a :: post) :
    lo ≤ key a ∧ key a < hi ∧ Lib.within key lo (key a) l = pre ∧
      Lib.within key (key a) hi l = a :: post := by
  have hmem : a ∈ Lib.within key lo hi l := by simp [hs]
  obtain ⟨-, hlo, hhi⟩ := mem_within.mp hmem
  have hasc : Ascending key (pre ++ a :: post) := hs ▸ h.within lo hi
  obtain ⟨-, hpost, hcross⟩ := List.pairwise_append.mp hasc
  have hparts := hs.symm.trans (within_append h hlo hhi.le)
  have hleft : Lib.within key lo (key a) l = pre := by
    refine (h.within _ _).ext (hasc.sublist (List.sublist_append_left _ _)) fun b => ?_
    constructor
    · intro hb
      have hlt := (mem_within.mp hb).2.2
      have hb' : b ∈ pre ++ a :: post := by
        rw [hparts]
        exact List.mem_append_left _ hb
      rcases List.mem_append.mp hb' with hpre | hpost'
      · exact hpre
      · rcases List.mem_cons.mp hpost' with rfl | hin
        · exact absurd hlt (lt_irrefl _)
        · exact absurd hlt (lt_asymm ((List.pairwise_cons.mp hpost).1 b hin))
    · intro hb
      have hw : b ∈ Lib.within key lo hi l := hs ▸ List.mem_append_left _ hb
      obtain ⟨hbl, hblo, -⟩ := mem_within.mp hw
      exact mem_within.mpr ⟨hbl, hblo, hcross b hb a (by simp)⟩
  refine ⟨hlo, hhi, hleft, ?_⟩
  rw [hleft] at hparts
  exact (List.append_cancel_left hparts).symm

def sortDedup (key : α → κ) (l : List α) : List α :=
  (sortBy key l).destutter fun a b => key a ≠ key b

theorem sortDedup_sublist (l : List α) : (sortDedup key l).Sublist (sortBy key l) :=
  List.destutter_sublist _ _

theorem sortDedup_ascending (l : List α) : Ascending key (sortDedup key l) := by
  have hsorted : (sortDedup key l).Pairwise fun a b => key a ≤ key b :=
    (sortBy_sorted l).sublist (sortDedup_sublist l)
  have hne := List.isChain_destutter (fun a b : α => key a ≠ key b) (sortBy key l)
  have hlt : ((sortDedup key l).map key).IsChain (· < ·) := by
    refine (List.isChain_map key).mpr (List.isChain_iff_getElem.mpr fun i hi => ?_)
    exact lt_of_le_of_ne (List.pairwise_iff_getElem.mp hsorted i (i + 1) _ hi (by omega))
      (List.isChain_iff_getElem.mp hne i hi)
  exact List.pairwise_map.mp hlt.pairwise

theorem exists_mem_destutter' (x : α) (l : List α) {a : α} (ha : a ∈ x :: l) :
    ∃ b ∈ List.destutter' (fun a b => key a ≠ key b) x l, key b = key a := by
  induction l generalizing x with
  | nil => exact ⟨x, by simp, by simp [List.mem_singleton.mp ha]⟩
  | cons y l ih =>
    by_cases hxy : key x = key y
    · rw [List.destutter'_cons_neg _ (by simpa using hxy)]
      rcases List.mem_cons.mp ha with rfl | ha
      · exact ih a List.mem_cons_self
      · rcases List.mem_cons.mp ha with rfl | ha
        · exact ⟨x, List.mem_destutter' _ _ _, hxy⟩
        · exact ih x (List.mem_cons_of_mem _ ha)
    · rw [List.destutter'_cons_pos _ hxy]
      rcases List.mem_cons.mp ha with rfl | ha
      · exact ⟨a, List.mem_cons_self, rfl⟩
      · obtain ⟨b, hb, hk⟩ := ih y ha
        exact ⟨b, List.mem_cons_of_mem _ hb, hk⟩

/-- When equal keys mean equal elements, nothing is lost. -/
theorem mem_sortDedup {l : List α} (hkey : ∀ a ∈ l, ∀ b ∈ l, key a = key b → a = b) {a : α} :
    a ∈ sortDedup key l ↔ a ∈ l := by
  refine ⟨fun ha => mem_sortBy.mp ((sortDedup_sublist l).subset ha), fun ha => ?_⟩
  have ha' : a ∈ sortBy key l := mem_sortBy.mpr ha
  have hb : ∃ b ∈ sortDedup key l, key b = key a := by
    unfold sortDedup
    cases hs : sortBy key l with
    | nil => simp [hs] at ha'
    | cons x s => exact exists_mem_destutter' x s (hs ▸ ha')
  obtain ⟨b, hb, hk⟩ := hb
  have hbl : b ∈ l := mem_sortBy.mp ((sortDedup_sublist l).subset hb)
  exact hkey b hbl a ha hk ▸ hb

/-- An ascending list is its own sorted copy. -/
theorem sortDedup_of_ascending {l : List α} (h : Ascending key l) : sortDedup key l = l :=
  (sortDedup_ascending l).ext h fun _ =>
    mem_sortDedup fun _ ha _ hb hk => h.keyNodup.inj ha hb hk

/-- The first elements of a sorted list are the first of any part that holds them. -/
theorem take_sortDedup_between {l u : List α}
    (hkey : ∀ a ∈ u, ∀ b ∈ u, key a = key b → a = b) (hl : ∀ a ∈ l, a ∈ u) {n : ℕ}
    (htake : ∀ a ∈ (sortDedup key u).take n, a ∈ l) :
    (sortDedup key l).take n = (sortDedup key u).take n := by
  classical
  have hfilter : sortDedup key l = (sortDedup key u).filter (· ∈ l) := by
    refine (sortDedup_ascending l).ext ((sortDedup_ascending u).sublist List.filter_sublist) ?_
    intro a
    rw [mem_sortDedup fun a ha b hb => hkey a (hl a ha) b (hl b hb), List.mem_filter,
      mem_sortDedup hkey, decide_eq_true_eq]
    exact ⟨fun ha => ⟨hl a ha, ha⟩, And.right⟩
  have hfront : ((sortDedup key u).take n).filter (· ∈ l) = (sortDedup key u).take n :=
    List.filter_eq_self.mpr fun a ha => decide_eq_true (htake a ha)
  rw [hfilter]
  conv_lhs => rw [← List.take_append_drop n (sortDedup key u)]
  rw [List.filter_append, hfront]
  rcases le_total n (sortDedup key u).length with hle | hle
  · rw [List.take_append_of_le_length (by simp [hle]), List.take_take, min_self]
  · rw [List.drop_eq_nil_of_le hle, List.filter_nil, List.append_nil, List.take_take, min_self]

end Harmony.Lib
