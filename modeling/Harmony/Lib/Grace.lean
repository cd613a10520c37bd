import Mathlib

/-! Grace windows under a clock that may step back. An item is observed from time to
time; its window opens with an observation that sees it and closes with one that does
not, and a clock below the start of the window moves the start back to it. -/

namespace Harmony.Lib

variable {α : Type}

def rebase (now : ℕ) (first : Option ℕ) : ℕ := first.elim now (min now)

/-- The window has lasted for the whole grace period. -/
def lapsed (grace now : ℕ) (first : Option ℕ) : Bool := first.any fun f => f + grace ≤ now

/-- The start of the open window, from the observations, the newest first. -/
def firstSeen (seen : α → Bool) (clock : α → ℕ) : List α → Option ℕ
  | [] => none
  | w :: earlier =>
    if seen w then some (rebase (clock w) (firstSeen seen clock earlier)) else none

/-- Each observation since `w` saw the item, and none read an earlier clock. -/
def SeenSince (seen : α → Bool) (clock : α → ℕ) (l : List α) (w : α) : Prop :=
  ∃ recent earlier, l = recent ++ w :: earlier ∧ seen w = true ∧
    ∀ v ∈ recent, seen v = true ∧ clock w ≤ clock v

variable {seen : α → Bool} {clock : α → ℕ} {l : List α}

theorem rebase_le (now : ℕ) (first : Option ℕ) : rebase now first ≤ now := by
  cases first with
  | none => exact le_rfl
  | some f => exact min_le_left now f

theorem rebase_of_lt {now f : ℕ} (h : now < f) : rebase now (some f) = now := min_eq_left h.le

theorem rebase_of_le {now f : ℕ} (h : f ≤ now) : rebase now (some f) = f := min_eq_right h

theorem lapsed_of_lt {grace now f : ℕ} (h : now < f) : lapsed grace now (some f) = false := by
  simp only [lapsed, Option.any_some, decide_eq_false_iff_not]
  omega

theorem lapsed_of_young {grace now f : ℕ} (h : now - f < grace) : lapsed grace now (some f) = false := by
  simp only [lapsed, Option.any_some, decide_eq_false_iff_not]
  omega

theorem lapsed_of_old {grace now f : ℕ} (hle : f ≤ now) (h : ¬now - f < grace) :
    lapsed grace now (some f) = true := by
  simp only [lapsed, Option.any_some, decide_eq_true_eq]
  omega

theorem exists_of_firstSeen {f : ℕ} (h : firstSeen seen clock l = some f) :
    ∃ w, SeenSince seen clock l w ∧ clock w = f := by
  induction l generalizing f with
  | nil => cases h
  | cons v l ih =>
    rw [firstSeen] at h
    split_ifs at h with hv
    have hf : rebase (clock v) (firstSeen seen clock l) = f := Option.some.inj h
    -- the window starts here, or the older start stands
    have hstart : clock v = f ∨ firstSeen seen clock l = some f ∧ f ≤ clock v := by
      cases hl : firstSeen seen clock l with
      | none =>
        rw [hl] at hf
        exact Or.inl hf
      | some g =>
        rw [hl] at hf
        change min (clock v) g = f at hf
        rcases le_total (clock v) g with hle | hle
        · rw [min_eq_left hle] at hf
          exact Or.inl hf
        · rw [min_eq_right hle] at hf
          exact Or.inr ⟨by rw [hf], hf ▸ hle⟩
    rcases hstart with hf | ⟨hl, hle⟩
    · exact ⟨v, ⟨[], l, rfl, hv, by simp⟩, hf⟩
    · obtain ⟨w, ⟨recent, earlier, rfl, hw, hrecent⟩, rfl⟩ := ih hl
      refine ⟨w, ⟨v :: recent, earlier, rfl, hw, fun u hu => ?_⟩, rfl⟩
      rcases List.mem_cons.mp hu with rfl | hu
      · exact ⟨hv, hle⟩
      · exact hrecent u hu

theorem SeenSince.exists_firstSeen {w : α} (h : SeenSince seen clock l w) :
    ∃ f, firstSeen seen clock l = some f ∧ f ≤ clock w := by
  obtain ⟨recent, earlier, rfl, hw, hrecent⟩ := h
  induction recent with
  | nil =>
    rw [List.nil_append, firstSeen, if_pos hw]
    exact ⟨_, rfl, rebase_le _ _⟩
  | cons v recent ih =>
    obtain ⟨f, hf, hle⟩ := ih fun u hu => hrecent u (List.mem_cons_of_mem v hu)
    rw [List.cons_append, firstSeen, if_pos (hrecent v List.mem_cons_self).1, hf]
    exact ⟨_, rfl, (min_le_right (clock v) f).trans hle⟩

/-- The window is older than the grace period exactly when some sighting that it goes
back to is. -/
theorem lapsed_firstSeen_iff {grace now : ℕ} :
    lapsed grace now (firstSeen seen clock l) = true ↔
      ∃ w, SeenSince seen clock l w ∧ clock w + grace ≤ now := by
  rw [lapsed, Option.any_eq_true]
  simp only [decide_eq_true_eq]
  constructor
  · rintro ⟨f, hf, hdue⟩
    obtain ⟨w, hw, rfl⟩ := exists_of_firstSeen hf
    exact ⟨w, hw, hdue⟩
  · rintro ⟨w, hw, hdue⟩
    obtain ⟨f, hf, hle⟩ := hw.exists_firstSeen
    exact ⟨f, hf, by omega⟩

end Harmony.Lib
