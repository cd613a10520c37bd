import Mathlib

/-! Admission in order within a limit: elements are taken while they fit on top of what is
used, and some of them, once taken, are used themselves. -/

namespace Harmony.Lib

variable {α : Type} (cost : α → ℕ) (counts : α → Bool) (limit : ℕ)

/-- The longest prefix whose elements all fit when their turn comes. -/
def fitting : ℕ → List α → List α
  | _, [] => []
  | used, a :: l =>
    if used + cost a ≤ limit then a :: fitting (if counts a then used + cost a else used) l else []

def spent (l : List α) : ℕ := ((l.filter counts).map cost).sum

variable {cost counts limit}

@[simp] theorem spent_nil : spent cost counts [] = 0 := rfl

theorem spent_cons (a : α) (l : List α) :
    spent cost counts (a :: l) = (if counts a then cost a else 0) + spent cost counts l := by
  unfold spent
  cases h : counts a <;> simp [h]

theorem spent_append (l r : List α) :
    spent cost counts (l ++ r) = spent cost counts l + spent cost counts r := by
  simp [spent]

theorem fitting_cons_of_fits {used : ℕ} {a : α} (h : used + cost a ≤ limit) (l : List α) :
    fitting cost counts limit used (a :: l) =
      a :: fitting cost counts limit (if counts a then used + cost a else used) l := by
  rw [fitting, if_pos h]

theorem fitting_cons_of_not_fits {used : ℕ} {a : α} (h : ¬used + cost a ≤ limit) (l : List α) :
    fitting cost counts limit used (a :: l) = [] := by
  rw [fitting, if_neg h]

theorem fitting_sub (used : ℕ) (l : List α) : fitting cost counts limit used l <+: l := by
  induction l generalizing used with
  | nil => exact List.prefix_refl _
  | cons a l ih =>
    by_cases hfits : used + cost a ≤ limit
    · rw [fitting_cons_of_fits hfits]
      exact (List.prefix_cons_inj a).mpr (ih _)
    · rw [fitting_cons_of_not_fits hfits]
      exact List.nil_prefix

/-- Admission goes on behind what is admitted as a whole. -/
theorem fitting_append_of_all {used : ℕ} {l : List α} (h : fitting cost counts limit used l = l)
    (r : List α) :
    fitting cost counts limit used (l ++ r) =
      l ++ fitting cost counts limit (used + spent cost counts l) r := by
  induction l generalizing used with
  | nil => rfl
  | cons a l ih =>
    by_cases hfits : used + cost a ≤ limit
    · rw [fitting_cons_of_fits hfits] at h
      rw [List.cons_append, fitting_cons_of_fits hfits, ih (List.cons.inj h).2, spent_cons]
      cases counts a <;> simp [Nat.add_assoc]
    · rw [fitting_cons_of_not_fits hfits] at h
      cases h

/-- It stops where it stops before. -/
theorem fitting_append_of_stop {used : ℕ} {l : List α} (h : fitting cost counts limit used l ≠ l)
    (r : List α) :
    fitting cost counts limit used (l ++ r) = fitting cost counts limit used l := by
  induction l generalizing used with
  | nil => exact absurd rfl h
  | cons a l ih =>
    by_cases hfits : used + cost a ≤ limit
    · rw [fitting_cons_of_fits hfits] at h
      rw [List.cons_append, fitting_cons_of_fits hfits, fitting_cons_of_fits hfits,
        ih fun heq => h (by rw [heq])]
    · rw [List.cons_append, fitting_cons_of_not_fits hfits, fitting_cons_of_not_fits hfits]

/-- Whatever counts was admitted within the limit. -/
theorem used_add_spent_le {used : ℕ} {l : List α}
    (h : (fitting cost counts limit used l).filter counts ≠ []) :
    used + spent cost counts (fitting cost counts limit used l) ≤ limit := by
  induction l generalizing used with
  | nil => exact absurd rfl h
  | cons a l ih =>
    by_cases hfits : used + cost a ≤ limit
    · rw [fitting_cons_of_fits hfits] at h ⊢
      rw [spent_cons]
      cases ha : counts a with
      | true =>
        simp only [if_true]
        by_cases hmore : (fitting cost counts limit (used + cost a) l).filter counts = []
        · have hzero : spent cost counts (fitting cost counts limit (used + cost a) l) = 0 := by
            rw [spent, hmore]
            rfl
          omega
        · have hrest := ih hmore
          omega
      | false =>
        simp only [ha, Bool.false_eq_true, if_false, List.filter_cons] at h ⊢
        have hrest := ih h
        omega
    · rw [fitting_cons_of_not_fits hfits] at h
      exact absurd rfl h

/-- An element is taken if it and all before it fit when their turn comes. -/
theorem fitting_getElem?_eq_some {used q : ℕ} {l : List α} {a : α} :
    (fitting cost counts limit used l)[q]? = some a ↔
      l[q]? = some a ∧ ∀ k ≤ q, ∀ b, l[k]? = some b →
        used + spent cost counts (l.take k) + cost b ≤ limit := by
  induction l generalizing used q with
  | nil => simp [fitting]
  | cons c l ih =>
    by_cases hfits : used + cost c ≤ limit
    · have hused : ∀ k, (if counts c then used + cost c else used) +
          spent cost counts (l.take k) = used + spent cost counts ((c :: l).take (k + 1)) := by
        intro k
        rw [List.take_succ_cons, spent_cons]
        cases counts c <;> simp [Nat.add_assoc]
      rw [fitting_cons_of_fits hfits]
      cases q with
      | zero =>
        simp only [List.getElem?_cons_zero, Option.some.injEq, nonpos_iff_eq_zero, forall_eq,
          List.take_zero, spent_nil, Nat.add_zero]
        exact ⟨fun h => ⟨h, fun b hb => hb ▸ hfits⟩, fun h => h.1⟩
      | succ q =>
        rw [List.getElem?_cons_succ, List.getElem?_cons_succ, ih]
        refine and_congr_right fun _ => ⟨fun h k hk b hb => ?_, fun h k hk b hb => ?_⟩
        · cases k with
          | zero =>
            cases Option.some.inj hb
            simpa using hfits
          | succ k => exact hused k ▸ h k (by omega) b hb
        · exact (hused k).symm ▸ h (k + 1) (by omega) b hb
    · rw [fitting_cons_of_not_fits hfits]
      simp only [List.getElem?_nil, reduceCtorEq, false_iff, not_and]
      intro _ hall
      exact hfits (by simpa using hall 0 (Nat.zero_le q) c rfl)

end Harmony.Lib
