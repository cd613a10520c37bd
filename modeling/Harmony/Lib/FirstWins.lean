import Mathlib

/-! The first of a list under a rank. Ranks that come later do not take it over. -/

namespace Harmony.Lib

variable {α β : Type} [LinearOrder β] {f : α → β} {a : α} {l more : List α}

theorem argmin_append_of_lt (h : l.argmin f = some a) (hlt : ∀ b ∈ more, f a < f b) :
    (l ++ more).argmin f = some a := by
  induction more using List.reverseRecOn with
  | nil => rwa [List.append_nil]
  | append_singleton more b ih =>
    rw [← List.append_assoc, List.argmin_concat, ih fun c hc => hlt c (by simp [hc])]
    simp [(hlt b (by simp)).not_gt]

/-- The first that passes a filter stays the first when what is appended ranks higher and
the filter lets the old ones through as before. -/
theorem argmin_filter_append_of_lt {p q : α → Bool} (hpq : ∀ b ∈ l, q b = p b)
    (h : (l.filter p).argmin f = some a) (hlt : ∀ b ∈ more, f a < f b) :
    ((l ++ more).filter q).argmin f = some a := by
  rw [List.filter_append, List.filter_congr hpq]
  exact argmin_append_of_lt h fun b hb => hlt b (List.mem_of_mem_filter hb)

/-- Nothing passes a filter as long as nothing that is appended passes it. -/
theorem argmin_filter_append_of_none {p q : α → Bool} (hpq : ∀ b ∈ l, q b = p b)
    (h : (l.filter p).argmin f = none) (hmore : ∀ b ∈ more, q b = false) :
    ((l ++ more).filter q).argmin f = none := by
  rw [List.argmin_eq_none] at h ⊢
  rw [List.filter_append, List.filter_congr hpq, h, List.nil_append, List.filter_eq_nil_iff]
  exact fun b hb => by simp [hmore b hb]

end Harmony.Lib
