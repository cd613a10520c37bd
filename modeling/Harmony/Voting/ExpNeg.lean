import Harmony.Lib.Bisect
import Harmony.Voting.Conviction

/-! `exp_neg_q32` on natural numbers: the terms of the series without their signs, their
alternating sum and the eight squarings. It stays between zero and one, and it never
increases but at one step, where two terms round up together. -/

namespace Harmony.Voting

open Harmony.Lib

/-! ### The series -/

/-- The size of the `n`-th term of the series at the reduced argument `x`. -/
def taylorTerm (x : ℕ) : ℕ → ℕ
  | 0 => 2 ^ 32
  | n + 1 => taylorTerm x n * x / (2 ^ 32 * (n + 1))

theorem taylorTerm_mono {x y : ℕ} (h : x ≤ y) (n : ℕ) : taylorTerm x n ≤ taylorTerm y n := by
  induction n with
  | zero => rfl
  | succ n ih => exact Nat.div_le_div_right (Nat.mul_le_mul ih h)

theorem taylorTerm_succ_le {x : ℕ} (hx : x ≤ 2 ^ 32) (n : ℕ) :
    taylorTerm x (n + 1) ≤ taylorTerm x n := by
  refine Nat.div_le_of_le_mul ?_
  calc taylorTerm x n * x ≤ taylorTerm x n * (2 ^ 32 * (n + 1)) :=
        Nat.mul_le_mul_left _ (hx.trans (Nat.le_mul_of_pos_right _ (Nat.succ_pos n)))
    _ = 2 ^ 32 * (n + 1) * taylorTerm x n := Nat.mul_comm _ _

theorem taylorTerm_zero_of_le {x n : ℕ} (h : taylorTerm x n = 0) (m : ℕ) :
    taylorTerm x (n + m) = 0 := by
  induction m with
  | zero => exact h
  | succ m ih =>
    rw [← Nat.add_assoc, taylorTerm, ih]
    simp

theorem tdiv_signed (k a b : ℕ) :
    Int.tdiv ((-1) ^ k * (a : ℤ)) (b : ℤ) = (-1) ^ k * ((a / b : ℕ) : ℤ) := by
  rcases neg_one_pow_eq_or ℤ k with h | h
  · rw [h, one_mul, one_mul, Int.ofNat_tdiv]
  · rw [h, neg_one_mul, neg_one_mul, Int.neg_tdiv, Int.ofNat_tdiv]

theorem taylorLoop_eq (x m n : ℕ) (sum : ℤ) :
    taylorLoop x ((List.range' (n + 1) m).map Nat.cast) ((-1) ^ n * (taylorTerm x n : ℤ)) sum
      = sum + ∑ i ∈ Finset.range m, (-1) ^ (n + 1 + i) * (taylorTerm x (n + 1 + i) : ℤ) := by
  induction m generalizing n sum with
  | zero => simp [taylorLoop]
  | succ m ih =>
    have hterm : Int.tdiv (-((-1) ^ n * (taylorTerm x n : ℤ) * x)) (q32 * ((n + 1 : ℕ) : ℤ))
        = (-1) ^ (n + 1) * (taylorTerm x (n + 1) : ℤ) := by
      have hnum : -((-1) ^ n * (taylorTerm x n : ℤ) * x)
          = (-1) ^ (n + 1) * ((taylorTerm x n * x : ℕ) : ℤ) := by
        push_cast
        ring
      have hden : q32 * ((n + 1 : ℕ) : ℤ) = ((2 ^ 32 * (n + 1) : ℕ) : ℤ) := by
        simp [q32]
      rw [hnum, hden, tdiv_signed]
      rfl
    rw [List.range'_succ, List.map_cons, taylorLoop]
    simp only [hterm]
    rw [Finset.sum_range_succ']
    split
    · next hzero =>
      have h0 : taylorTerm x (n + 1) = 0 := by
        rcases mul_eq_zero.mp hzero with h | h
        · exact absurd h (pow_ne_zero _ (by norm_num))
        · exact_mod_cast h
      have hrest : ∀ i, taylorTerm x (n + 1 + i) = 0 := taylorTerm_zero_of_le h0
      simp [hrest]
    · rw [ih]
      simp only [Nat.add_zero, Nat.add_assoc, Nat.add_comm 1]
      ring

/-- The sum of the eight terms, never below zero. -/
def expSeries (x : ℕ) : ℕ :=
  2 ^ 32 + taylorTerm x 2 + taylorTerm x 4 + taylorTerm x 6 -
    (x + taylorTerm x 3 + taylorTerm x 5 + taylorTerm x 7)

theorem taylorTerm_one (x : ℕ) : taylorTerm x 1 = x := by
  simp [taylorTerm]

theorem max_taylorLoop (x : ℕ) :
    max (taylorLoop x [1, 2, 3, 4, 5, 6, 7] q32 q32) 0 = (expSeries x : ℤ) := by
  have h := taylorLoop_eq x 7 0 q32
  have hlist : (List.range' (0 + 1) 7).map (Nat.cast : ℕ → ℤ) = [1, 2, 3, 4, 5, 6, 7] := rfl
  have hstart : (-1) ^ 0 * (taylorTerm x 0 : ℤ) = q32 := by
    simp [taylorTerm, q32]
  rw [hlist, hstart] at h
  rw [h, expSeries]
  simp only [Finset.sum_range_succ, Finset.sum_range_zero, Nat.zero_add, Nat.reduceAdd,
    taylorTerm_one, q32]
  omega

/-! ### The squarings -/

def squareQ32 (r : ℕ) : ℕ := r * r / 2 ^ 32

def expReduced (x : ℕ) : ℕ := squareQ32^[8] (expSeries x)

theorem squareQ32_mono : Monotone squareQ32 :=
  fun _ _ h => Nat.div_le_div_right (Nat.mul_le_mul h h)

theorem squareQ32_le {r : ℕ} (h : r ≤ 2 ^ 32) : squareQ32 r ≤ 2 ^ 32 :=
  Nat.div_le_of_le_mul (Nat.mul_le_mul h h)

theorem cast_squareQ32_iterate (k r : ℕ) :
    (fun r : ℤ => r * r / 2 ^ 32)^[k] (r : ℤ) = ((squareQ32^[k] r : ℕ) : ℤ) := by
  induction k generalizing r with
  | zero => rfl
  | succ k ih =>
    rw [Function.iterate_succ_apply, Function.iterate_succ_apply, ← ih]
    simp [squareQ32]

theorem expNegQ32_eq {x : ℤ} (h0 : 0 < x) (h1 : x ≤ 20 * q32) :
    expNegQ32 x = (expReduced (x / 2 ^ 8).toNat : ℤ) := by
  have hx : ((x / 2 ^ 8).toNat : ℤ) = x / 2 ^ 8 := Int.toNat_of_nonneg (by omega)
  rw [expNegQ32, if_neg (by omega), if_neg (by omega), ← hx]
  simp only [Int.toNat_natCast]
  rw [max_taylorLoop, cast_squareQ32_iterate, expReduced]

/-! ### Between zero and one -/

theorem expSeries_le {x : ℕ} (hx : x ≤ 2 ^ 32) : expSeries x ≤ 2 ^ 32 := by
  have h1 := taylorTerm_succ_le hx 1
  have h3 := taylorTerm_succ_le hx 3
  have h5 := taylorTerm_succ_le hx 5
  rw [taylorTerm_one] at h1
  simp only [Nat.reduceAdd] at h1 h3 h5
  rw [expSeries]
  omega

theorem expReduced_le {x : ℕ} (hx : x ≤ 2 ^ 32) : expReduced x ≤ 2 ^ 32 :=
  Function.Iterate.rec (· ≤ 2 ^ 32) (expSeries_le hx) (fun _ => squareQ32_le) 8

theorem expNegQ32_mem (x : ℤ) : 0 ≤ expNegQ32 x ∧ expNegQ32 x ≤ q32 := by
  rcases le_or_gt x 0 with h0 | h0
  · rw [expNegQ32, if_pos h0]
    exact ⟨by norm_num [q32], le_rfl⟩
  · rcases le_or_gt x (20 * q32) with h1 | h1
    · rw [expNegQ32_eq h0 h1]
      have hle : (x / 2 ^ 8).toNat ≤ 2 ^ 32 := by
        rw [q32] at h1
        omega
      have := expReduced_le hle
      rw [q32]
      omega
    · rw [expNegQ32, if_neg (by omega), if_pos h1]
      norm_num [q32]

theorem powHalfQ32_mem (tMs halfLifeMs : ℤ) :
    0 ≤ powHalfQ32 tMs halfLifeMs ∧ powHalfQ32 tMs halfLifeMs ≤ q32 := by
  unfold powHalfQ32
  split
  · exact ⟨by norm_num [q32], le_rfl⟩
  · split
    · norm_num [q32]
    · exact expNegQ32_mem _

end Harmony.Voting
