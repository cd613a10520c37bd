import Mathlib

/-! The partial Fisher-Yates shuffle of a list: at step `i` the element there changes places
with one at or behind it. The swapped prefix is final, so every choice of distinct
elements is the prefix of some run. -/

namespace Harmony.Lib

variable {α : Type} {pool : List α} {i j k : ℕ}

def swapAt (pool : List α) (i j : ℕ) : Option (List α) := do
  let a ← pool[i]?
  let b ← pool[j]?
  some ((pool.set i b).set j a)

theorem swapAt_eq (hi : i < pool.length) (hj : j < pool.length) :
    swapAt pool i j = some ((pool.set i pool[j]).set j pool[i]) := by
  rw [swapAt, List.getElem?_eq_getElem hi, List.getElem?_eq_getElem hj]
  rfl

theorem swapAt_perm {pool' : List α} (h : swapAt pool i j = some pool') : pool'.Perm pool := by
  have hi : i < pool.length := by
    by_contra hi
    simp [swapAt, List.getElem?_eq_none (not_lt.mp hi)] at h
  have hj : j < pool.length := by
    by_contra hj
    simp [swapAt, List.getElem?_eq_none (not_lt.mp hj)] at h
  rw [swapAt_eq hi hj] at h
  obtain rfl := Option.some.inj h
  exact List.set_set_perm hi hj

/-- The prefix before the swap is final, and the chosen element joins it. -/
theorem take_swapAt (hij : i ≤ j) (hj : j < pool.length) {pool' : List α}
    (h : swapAt pool i j = some pool') : pool'.take (i + 1) = pool.take i ++ [pool[j]] := by
  have hi : i < pool.length := by omega
  rw [swapAt_eq hi hj] at h
  obtain rfl := Option.some.inj h
  have hfixed : ((pool.set i pool[j]).set j pool[i]).take i = pool.take i := by
    rw [List.take_set_of_le hij, List.take_set_of_le le_rfl]
  have hchosen : ((pool.set i pool[j]).set j pool[i])[i]? = some pool[j] := by
    rw [List.getElem?_set]
    by_cases hsame : j = i
    · subst hsame
      simp [hj]
    · simp [hsame, hi]
  rw [List.take_add_one, hfixed, hchosen]
  rfl

/-- `k` steps, the `i`-th of which reaches `draw i` places behind `i`. -/
def shuffle (draw : ℕ → ℕ) (pool : List α) (k : ℕ) : Option (List α) :=
  (List.range k).foldlM (fun pool i => swapAt pool i (i + draw i)) pool

theorem shuffle_succ (draw : ℕ → ℕ) (pool : List α) (k : ℕ) :
    shuffle draw pool (k + 1) =
      (shuffle draw pool k).bind fun pool' => swapAt pool' k (k + draw k) := by
  rw [shuffle, shuffle, List.range_succ, List.foldlM_append]
  simp

/-- Every step draws from what the earlier steps left. -/
def Draws (draw : ℕ → ℕ) (n k : ℕ) : Prop := ∀ i < k, draw i < n - i

/-- In range nothing panics, and the run permutes the list. -/
theorem exists_shuffle {draw : ℕ → ℕ} (hd : Draws draw pool.length k) :
    ∃ pool', shuffle draw pool k = some pool' ∧ pool'.Perm pool := by
  induction k with
  | zero => exact ⟨pool, rfl, .refl _⟩
  | succ k ih =>
    obtain ⟨pool', hrun, hperm⟩ := ih fun i hi => hd i (by omega)
    have hlen : pool'.length = pool.length := hperm.length_eq
    have hdraw : draw k < pool.length - k := hd k (by omega)
    have hswap := @swapAt_eq α pool' k (k + draw k) (by omega) (by omega)
    refine ⟨_, ?_, (swapAt_perm hswap).trans hperm⟩
    rw [shuffle_succ, hrun, Option.bind_some, hswap]

/-- A run without a panic drew in range. -/
theorem draws_of_shuffle {draw : ℕ → ℕ} {pool' : List α} (h : shuffle draw pool k = some pool') :
    Draws draw pool.length k := by
  induction k generalizing pool' with
  | zero => exact fun i hi => absurd hi (Nat.not_lt_zero i)
  | succ k ih =>
    rw [shuffle_succ] at h
    obtain ⟨before, hbefore, hswap⟩ := Option.bind_eq_some_iff.mp h
    have hd : Draws draw pool.length k := ih hbefore
    obtain ⟨pool'', hrun, hperm⟩ := exists_shuffle hd
    obtain rfl := Option.some.inj (hbefore.symm.trans hrun)
    have hlast : k + draw k < pool.length := by
      rw [← hperm.length_eq]
      by_contra hout
      simp [swapAt, List.getElem?_eq_none (not_lt.mp hout)] at hswap
    intro i hi
    rcases Nat.lt_succ_iff_lt_or_eq.mp hi with hi | rfl
    · exact hd i hi
    · omega

theorem shuffle_congr {draw draw' : ℕ → ℕ} (h : ∀ i < k, draw i = draw' i) :
    shuffle draw pool k = shuffle draw' pool k := by
  induction k with
  | zero => rfl
  | succ k ih =>
    rw [shuffle_succ, shuffle_succ, ih fun i hi => h i (by omega), h k (by omega)]

/-- Every list of distinct elements is drawn by some run. -/
theorem exists_draws (sel : List α) (hnd : sel.Nodup) (hsub : sel ⊆ pool) :
    ∃ draw, Draws draw pool.length sel.length ∧
      ∃ pool', shuffle draw pool sel.length = some pool' ∧ pool'.take sel.length = sel := by
  induction sel using List.reverseRecOn with
  | nil => exact ⟨fun _ => 0, fun i hi => by simp at hi, pool, rfl, rfl⟩
  | append_singleton sel a ih =>
    obtain ⟨hsel, ha⟩ : sel.Nodup ∧ a ∉ sel := by
      rw [List.nodup_append] at hnd
      exact ⟨hnd.1, fun h => hnd.2.2 a h a (by simp) rfl⟩
    obtain ⟨draw, hd, pool', hrun, htaken⟩ :=
      ih hsel fun x hx => hsub (List.mem_append_left _ hx)
    obtain ⟨run, hrun', hperm⟩ := exists_shuffle hd
    obtain rfl : pool' = run := Option.some.inj (hrun.symm.trans hrun')
    -- the next element is still there, and not in the prefix
    have hmem : a ∈ pool' := hperm.mem_iff.mpr (hsub (by simp))
    obtain ⟨j, hj, rfl⟩ := List.getElem_of_mem hmem
    have hjk : sel.length ≤ j := by
      by_contra hlt
      refine ha ?_
      rw [← htaken]
      exact List.mem_take_iff_getElem.mpr ⟨j, by omega, rfl⟩
    have hlen : pool'.length = pool.length := hperm.length_eq
    let draw' : ℕ → ℕ := Function.update draw sel.length (j - sel.length)
    have hsame : ∀ i < sel.length, draw' i = draw i := fun i hi =>
      Function.update_of_ne (by omega) _ _
    have hnext : draw' sel.length = j - sel.length := Function.update_self _ _ _
    have hswap := @swapAt_eq α pool' sel.length j (by omega) hj
    rw [List.length_append, List.length_singleton]
    refine ⟨draw', ?_, _, ?_, (take_swapAt hjk hj hswap).trans ?_⟩
    · intro i hi
      rcases Nat.lt_succ_iff_lt_or_eq.mp hi with hlt | rfl
      · rw [hsame i hlt]
        exact hd i hlt
      · rw [hnext]
        omega
    · rw [shuffle_succ, shuffle_congr hsame, hrun, Option.bind_some, hnext,
        show sel.length + (j - sel.length) = j by omega, hswap]
    · rw [htaken]

end Harmony.Lib
