import Harmony.Lib.Sorted

/-! Appending one element to a list that is kept sorted by key. The sort is stable: an element
that arrives last is met after all elements with its key. -/

namespace Harmony.Lib

variable {α κ : Type} {key : α → κ} [LinearOrder κ]

variable {a b : α} {l F G : List α}

def insertBy (key : α → κ) (b : α) (l : List α) : List α :=
  l.orderedInsert (fun a b => key a ≤ key b) b

theorem insertBy_cons (b c : α) (l : List α) :
    insertBy key b (c :: l) = if key b ≤ key c then b :: c :: l else c :: insertBy key b l :=
  List.orderedInsert_cons _ b c l

theorem insertBy_append_of_le (h : key b ≤ key a) :
    insertBy key b (F ++ a :: G) = insertBy key b F ++ a :: G := by
  induction F with
  | nil => simp [insertBy, h]
  | cons c F ih =>
    rw [List.cons_append, insertBy_cons, insertBy_cons, ih]
    split_ifs <;> rfl

theorem insertBy_append_of_lt (h : key a < key b) (hF : ∀ c ∈ F, key c ≤ key a) :
    insertBy key b (F ++ a :: G) = F ++ a :: insertBy key b G := by
  induction F with
  | nil => rw [List.nil_append, insertBy_cons, if_neg (not_le.mpr h), List.nil_append]
  | cons c F ih =>
    have hc : ¬key b ≤ key c := not_le.mpr ((hF c (by simp)).trans_lt h)
    rw [List.cons_append, insertBy_cons, if_neg hc, ih fun d hd => hF d (by simp [hd]),
      List.cons_append]

theorem filter_insertBy_of_not {p : α → Bool} (h : p b = false) :
    (insertBy key b l).filter p = l.filter p := by
  induction l with
  | nil => simp [insertBy, h]
  | cons c l ih =>
    rw [insertBy_cons]
    split_ifs
    · rw [List.filter_cons, h]
      rfl
    · rw [List.filter_cons, List.filter_cons, ih]

/-- What sorts up to `a` takes up an element that does. -/
theorem filter_le_insertBy (h : key b ≤ key a) (hl : l.Pairwise fun a b => key a ≤ key b) :
    (insertBy key b l).filter (fun c => key c ≤ key a) =
      insertBy key b (l.filter fun c => key c ≤ key a) := by
  induction l with
  | nil => simp [insertBy, h]
  | cons c l ih =>
    rw [List.pairwise_cons] at hl
    rw [insertBy_cons]
    by_cases hc : key c ≤ key a
    · rw [List.filter_cons_of_pos (by simpa using hc), insertBy_cons]
      split_ifs
      · simp [h, hc]
      · rw [List.filter_cons_of_pos (by simpa using hc), ih hl.2]
    · have hnil : (c :: l).filter (fun c => key c ≤ key a) = [] := by
        rw [List.filter_eq_nil_iff]
        intro d hd
        rcases List.mem_cons.mp hd with rfl | hd
        · simpa using hc
        · simpa using (not_le.mp hc).trans_le (hl.1 d hd)
      have hbc : key b ≤ key c := h.trans (not_le.mp hc).le
      rw [if_pos hbc, List.filter_cons_of_pos (by simpa using h), hnil]
      rfl

/-- What sorts after `a` takes up an element that does. -/
theorem filter_lt_insertBy (h : key a < key b) :
    (insertBy key b l).filter (fun c => key a < key c) =
      insertBy key b (l.filter fun c => key a < key c) := by
  induction l with
  | nil => simp [insertBy, h]
  | cons c l ih =>
    rw [insertBy_cons]
    split_ifs with hbc
    · have hc : key a < key c := h.trans_le hbc
      simp [h, hc, insertBy_cons, hbc]
    · rw [List.filter_cons, ih, List.filter_cons]
      split_ifs with hc
      · rw [insertBy_cons, if_neg hbc]
      · rfl

theorem sortBy_concat (key : α → κ) (l : List α) (a : α) :
    sortBy key (l ++ [a]) = (sortBy key l).filter (fun c => key c ≤ key a) ++
      a :: (sortBy key l).filter fun c => key a < key c := by
  induction l with
  | nil => simp [sortBy]
  | cons b l ih =>
    have hcons : ∀ m, sortBy key (b :: m) = insertBy key b (sortBy key m) := fun m => rfl
    rw [List.cons_append, hcons, hcons, ih]
    rcases le_or_gt (key b) (key a) with hb | hb
    · rw [insertBy_append_of_le hb, filter_le_insertBy hb (sortBy_sorted l),
        filter_insertBy_of_not (by simpa using hb)]
    · rw [insertBy_append_of_lt hb (by simp), filter_lt_insertBy hb,
        filter_insertBy_of_not (by simpa using hb)]

/-- A sorted list is split by every key. -/
theorem filter_append_filter (hl : l.Pairwise fun a b => key a ≤ key b) (a : α) :
    l.filter (fun c => key c ≤ key a) ++ l.filter (fun c => key a < key c) = l := by
  induction l with
  | nil => rfl
  | cons c l ih =>
    rw [List.pairwise_cons] at hl
    by_cases hc : key c ≤ key a
    · simp [hc, ih hl.2]
    · have hall : ∀ d ∈ c :: l, key a < key d := by
        intro d hd
        rcases List.mem_cons.mp hd with rfl | hd
        · exact not_le.mp hc
        · exact (not_le.mp hc).trans_le (hl.1 d hd)
      rw [List.filter_eq_nil_iff.mpr fun d hd => by simpa using hall d hd,
        List.filter_eq_self.mpr fun d hd => by simpa using hall d hd, List.nil_append]

end Harmony.Lib
