import Mathlib

/-! A stream of frames in which the place of each frame is part of what is sealed: its
position, whether it is the last one, and the data bound to its position. A stream all of
whose slots occur in another one is that stream. -/

namespace Harmony.Lib

variable {δ γ : Type}

structure Slot (δ γ : Type) where
  position : ℕ
  last : Bool
  aad : δ
  frame : γ
deriving DecidableEq

/-- The slots of frames from a position on; the last frame is marked. -/
def slots (aad : ℕ → δ) : ℕ → List γ → List (Slot δ γ)
  | _, [] => []
  | k, [c] => [⟨k, true, aad k, c⟩]
  | k, c :: d :: cs => ⟨k, false, aad k, c⟩ :: slots aad (k + 1) (d :: cs)

@[simp] theorem slots_nil (aad : ℕ → δ) (k : ℕ) : slots aad k ([] : List γ) = [] := rfl

@[simp] theorem slots_singleton (aad : ℕ → δ) (k : ℕ) (c : γ) :
    slots aad k [c] = [⟨k, true, aad k, c⟩] := rfl

theorem slots_cons (aad : ℕ → δ) (k : ℕ) (c : γ) {cs : List γ} (hcs : cs ≠ []) :
    slots aad k (c :: cs) = ⟨k, false, aad k, c⟩ :: slots aad (k + 1) cs := by
  cases cs with
  | nil => exact absurd rfl hcs
  | cons d cs => rfl

theorem slots_position {aad : ℕ → δ} {k : ℕ} {cs : List γ} {s : Slot δ γ}
    (h : s ∈ slots aad k cs) :
    k ≤ s.position ∧ s.position < k + cs.length ∧ s.aad = aad s.position := by
  induction cs generalizing k with
  | nil => simp at h
  | cons c cs ih =>
    by_cases hcs : cs = []
    · subst hcs
      rw [slots_singleton, List.mem_singleton] at h
      subst h
      simp
    · rw [slots_cons aad k c hcs, List.mem_cons] at h
      rcases h with rfl | h
      · simp
      · obtain ⟨hle, hlt, haad⟩ := ih h
        rw [List.length_cons]
        exact ⟨by omega, by omega, haad⟩

/-- The first slot is the only one at its position. -/
theorem first_slot {aad : ℕ → δ} {k : ℕ} {cs : List γ} {last : Bool} {a : δ} {c : γ}
    (h : (⟨k, last, a, c⟩ : Slot δ γ) ∈ slots aad k cs) :
    ∃ rest, cs = c :: rest ∧ (last = true ↔ rest = []) := by
  cases cs with
  | nil => simp at h
  | cons d rest =>
    refine ⟨rest, ?_⟩
    by_cases hrest : rest = []
    · subst hrest
      rw [slots_singleton, List.mem_singleton] at h
      simp_all
    · rw [slots_cons aad k d hrest, List.mem_cons] at h
      rcases h with h | h
      · simp_all
      · have hlater := (slots_position h).1
        dsimp only at hlater
        omega

/-- Frames whose slots all occur among those of other frames are these frames. -/
theorem eq_of_slots_subset {aad aad' : ℕ → δ} {k : ℕ} {cs cs' : List γ} (hcs : cs' ≠ [])
    (h : ∀ s ∈ slots aad' k cs', s ∈ slots aad k cs) : cs' = cs := by
  induction cs' generalizing k cs with
  | nil => exact absurd rfl hcs
  | cons c cs' ih =>
    by_cases htail : cs' = []
    · subst htail
      obtain ⟨rest, rfl, hlast⟩ := first_slot (h ⟨k, true, aad' k, c⟩ (by simp))
      rw [hlast.mp rfl]
    · rw [slots_cons aad' k c htail] at h
      obtain ⟨rest, rfl, hlast⟩ := first_slot (h _ (.head _))
      have hrest : rest ≠ [] := fun hnil => by simp [hnil] at hlast
      rw [slots_cons aad k c hrest] at h
      refine congrArg (c :: ·) (ih (k := k + 1) htail fun s hs => ?_)
      have hlater := (slots_position hs).1
      rcases List.mem_cons.mp (h s (.tail _ hs)) with rfl | hmem
      · dsimp only at hlater
        omega
      · exact hmem

end Harmony.Lib
