import Harmony.Voting.ConvictionBound

/-! Conviction grows with the time supported and decays with the time idle, but for one
step of `exp_neg_q32`: there the second and the fourth term of the series round up together
and the result climbs by one unit in the last place. -/

namespace Harmony.Voting

open Harmony.Lib

/-! ### One step of the series -/

/-- The reduced argument before which `exp_neg_q32` climbs, about 13.2 half-lives. -/
def climbStep : ℕ := 153504339

/-- The greatest reduced argument. -/
def maxReduced : ℕ := 20 * 2 ^ 24

/-- The second, third and fourth term, with their denominators multiplied out. -/
def term2 (x : ℕ) : ℕ := x * x / 8589934592

def term3 (x : ℕ) : ℕ := term2 x * x / 12884901888

def term4 (x : ℕ) : ℕ := term3 x * x / 17179869184

theorem taylorTerm_two (x : ℕ) : taylorTerm x 2 = term2 x := by
  rw [taylorTerm, taylorTerm_one, term2]
  simp only [Nat.reducePow, Nat.reduceAdd, Nat.reduceMul]

theorem taylorTerm_three (x : ℕ) : taylorTerm x 3 = term3 x := by
  rw [taylorTerm, taylorTerm_two, term3]
  simp only [Nat.reducePow, Nat.reduceAdd, Nat.reduceMul]

theorem taylorTerm_four (x : ℕ) : taylorTerm x 4 = term4 x := by
  rw [taylorTerm, taylorTerm_three, term4]
  simp only [Nat.reducePow, Nat.reduceAdd, Nat.reduceMul]

theorem term4_mono : Monotone term4 := fun x y h => by
  rw [← taylorTerm_four, ← taylorTerm_four]
  exact taylorTerm_mono h 4

theorem taylorTerm_step {x : ℕ} (hx : x < 2 ^ 32) (n : ℕ) :
    taylorTerm (x + 1) (n + 1) ≤ taylorTerm x (n + 1) + 1 := by
  induction n with
  | zero => rw [Nat.zero_add, taylorTerm_one, taylorTerm_one]
  | succ n ih =>
    have hle : ∀ n, taylorTerm x (n + 1) ≤ x := by
      intro n
      induction n with
      | zero => rw [Nat.zero_add, taylorTerm_one]
      | succ n ih => exact (taylorTerm_succ_le hx.le (n + 1)).trans ih
    have hle := hle n
    rw [taylorTerm, taylorTerm.eq_2 x (n + 1)]
    generalize taylorTerm x (n + 1) = t at ih hle ⊢
    have hden : 0 < 2 ^ 32 * (n + 1 + 1) := by positivity
    rw [← Nat.add_div_right _ hden]
    refine Nat.div_le_div_right ?_
    calc taylorTerm (x + 1) (n + 1) * (x + 1) ≤ (t + 1) * (x + 1) := Nat.mul_le_mul_right _ ih
      _ = t * x + (t + x + 1) := by ring
      _ ≤ t * x + 2 ^ 32 * (n + 1 + 1) := by omega

theorem taylorTerm_six {x : ℕ} (hx : x ≤ maxReduced) :
    taylorTerm x 6 = if x < 319088959 then 0 else 1 := by
  have hlow : taylorTerm 319088958 6 = 0 := by decide +kernel
  have hhigh : taylorTerm 319088959 6 = 1 := by decide +kernel
  have hmax : taylorTerm maxReduced 6 = 1 := by decide +kernel
  split
  · have := taylorTerm_mono (show x ≤ 319088958 by omega) 6
    omega
  · have h1 := taylorTerm_mono (show 319088959 ≤ x by omega) 6
    have h2 := taylorTerm_mono hx 6
    omega

theorem expSeries_succ_le {x : ℕ} (hx : x < 2 ^ 32)
    (h4 : taylorTerm (x + 1) 4 = taylorTerm x 4) (h6 : taylorTerm (x + 1) 6 = taylorTerm x 6) :
    expSeries (x + 1) ≤ expSeries x := by
  have h2 := taylorTerm_step hx 1
  have h3 := taylorTerm_mono (Nat.le_succ x) 3
  have h5 := taylorTerm_mono (Nat.le_succ x) 5
  have h7 := taylorTerm_mono (Nat.le_succ x) 7
  simp only [Nat.succ_eq_add_one, Nat.reduceAdd] at h2 h3 h5 h7
  rw [expSeries, expSeries]
  omega

theorem expSeries_succ_le_of_four {x : ℕ} (hx : x < 2 ^ 32)
    (h23 : taylorTerm (x + 1) 2 = taylorTerm x 2 ∨ taylorTerm (x + 1) 3 ≠ taylorTerm x 3)
    (h6 : taylorTerm (x + 1) 6 = taylorTerm x 6) : expSeries (x + 1) ≤ expSeries x := by
  have h2 := taylorTerm_step hx 1
  have h4 := taylorTerm_step hx 3
  have h3 := taylorTerm_mono (Nat.le_succ x) 3
  have h5 := taylorTerm_mono (Nat.le_succ x) 5
  have h7 := taylorTerm_mono (Nat.le_succ x) 7
  simp only [Nat.succ_eq_add_one, Nat.reduceAdd] at h2 h3 h4 h5 h7
  rw [expSeries, expSeries]
  omega

theorem expReduced_mono_of_series {x y : ℕ} (h : expSeries y ≤ expSeries x) :
    expReduced y ≤ expReduced x :=
  squareQ32_mono.iterate 8 h

/-- What is left to check where the fourth term steps up: most often the second term stands
still or the third steps up as well. -/
def stepHolds (x : ℕ) : Bool :=
  (term2 (x + 1)).beq (term2 x) || !(term3 (x + 1)).beq (term3 x) ||
    (expReduced (x + 1)).ble (expReduced x) || x.beq climbStep

theorem stepHolds_all : ∀ i < 5,
    stepsSatisfy term4 stepHolds 26 (i * 2 ^ 26) (i * 2 ^ 26 + 2 ^ 26) = true := by
  decide +kernel

theorem expReduced_succ_le {x : ℕ} (hx : x < maxReduced) (hne : x ≠ climbStep) :
    expReduced (x + 1) ≤ expReduced x := by
  have hlt : x < 2 ^ 32 := hx.trans (by norm_num [maxReduced])
  by_cases h6 : taylorTerm (x + 1) 6 = taylorTerm x 6
  · by_cases h4 : term4 (x + 1) = term4 x
    · refine expReduced_mono_of_series (expSeries_succ_le hlt ?_ h6)
      rwa [taylorTerm_four, taylorTerm_four]
    · have hblock := stepHolds_all (x / 2 ^ 26) (by rw [maxReduced] at hx; omega)
      have hstep := stepsSatisfy_sound term4_mono hblock (by omega) (by omega) h4
      simp only [stepHolds, Bool.or_eq_true, Bool.not_eq_true', Nat.beq_eq, Nat.ble_eq] at hstep
      rcases hstep with ((h2 | h3) | hle) | hclimb
      · refine expReduced_mono_of_series (expSeries_succ_le_of_four hlt (Or.inl ?_) h6)
        rwa [taylorTerm_two, taylorTerm_two]
      · refine expReduced_mono_of_series (expSeries_succ_le_of_four hlt (Or.inr ?_) h6)
        rw [taylorTerm_three, taylorTerm_three]
        intro he
        simp [he] at h3
      · exact hle
      · exact absurd hclimb hne
  · -- the sixth term steps up once, and the third and fifth with it
    rw [taylorTerm_six hx.le, taylorTerm_six hx] at h6
    have hx6 : x = 319088958 := by
      split at h6 <;> split at h6 <;> omega
    subst hx6
    decide +kernel

/-! ### The whole range -/

theorem expReduced_climb :
    expReduced (climbStep - 1) = 456406 ∧ expReduced climbStep = 456405 ∧
      expReduced (climbStep + 1) = 456406 ∧ expReduced (climbStep + 2) = 456405 := by
  decide +kernel

theorem expReduced_anti {x y : ℕ} (hxy : x ≤ y) (hy : y ≤ maxReduced)
    (h : y ≤ climbStep ∨ climbStep < x) : expReduced y ≤ expReduced x := by
  induction y, hxy using Nat.le_induction with
  | base => rfl
  | succ y hxy ih =>
    exact (expReduced_succ_le (by omega) (by omega)).trans (ih (by omega) (by omega))

theorem expReduced_le_of_le {x y : ℕ} (hxy : x ≤ y) (hy : y ≤ maxReduced)
    (h : ¬(x = climbStep ∧ y = climbStep + 1)) : expReduced y ≤ expReduced x := by
  obtain ⟨hbefore, hat, hafter, hnext⟩ := expReduced_climb
  by_cases hside : y ≤ climbStep ∨ climbStep < x
  · exact expReduced_anti hxy hy hside
  · by_cases hx : x = climbStep
    · have hyt := expReduced_anti (show climbStep + 2 ≤ y by omega) hy (by omega)
      rw [hx]
      omega
    · have hlow := expReduced_anti (show x ≤ climbStep - 1 by omega) (by omega) (by omega)
      have hhigh := expReduced_anti (show climbStep + 1 ≤ y by omega) hy (by omega)
      omega

/-- `exp_neg_q32` never increases, but from `climbStep` to the next reduced argument. -/
theorem expNegQ32_anti {x y : ℤ} (hxy : x ≤ y)
    (h : ¬(x / 2 ^ 8 = climbStep ∧ y / 2 ^ 8 = climbStep + 1)) : expNegQ32 y ≤ expNegQ32 x := by
  rcases le_or_gt x 0 with hx | hx
  · rw [show expNegQ32 x = q32 by rw [expNegQ32, if_pos hx]]
    exact (expNegQ32_mem y).2
  · rcases le_or_gt y (20 * q32) with hy | hy
    · rw [expNegQ32_eq hx (hxy.trans hy), expNegQ32_eq (hx.trans_le hxy) hy]
      rw [q32] at hy
      refine Int.ofNat_le.mpr (expReduced_le_of_le ?_ ?_ ?_)
      · omega
      · rw [maxReduced]
        omega
      · omega
    · rw [show expNegQ32 y = 0 by rw [expNegQ32, if_neg (by omega), if_pos hy]]
      exact (expNegQ32_mem x).1

/-! ### Charge and decay -/

/-- `ln 2 · t / halfLife` in units of `2 ^ -24`: what the series is summed at. -/
def reducedArgument (tMs halfLifeMs : ℤ) : ℤ := tMs * ln2Q32 / halfLifeMs / 2 ^ 8

section Monotone

variable {halfLifeMs : ℤ} (hh : 0 < halfLifeMs)

include hh in
theorem powHalfQ32_eq {tMs : ℤ} (ht : 0 ≤ tMs) :
    powHalfQ32 tMs halfLifeMs = expNegQ32 (tMs * ln2Q32 / halfLifeMs) := by
  rcases ht.eq_or_lt with rfl | hpos
  · simp [powHalfQ32, expNegQ32]
  · rw [powHalfQ32, if_neg (by omega), if_neg (by omega), Int.tdiv_eq_ediv_of_nonneg]
    exact mul_nonneg ht (by norm_num [ln2Q32])

include hh in
theorem decayQ32_eq (c : ℤ) {dt : ℤ} (hdt : 0 ≤ dt) :
    decayQ32 c dt halfLifeMs = c * powHalfQ32 dt halfLifeMs / 2 ^ 32 := by
  rcases hdt.eq_or_lt with rfl | hpos
  · rw [decayQ32_of_nonpos c le_rfl, powHalfQ32, if_pos le_rfl, q32,
      Int.mul_ediv_cancel _ (by norm_num)]
  · rw [decayQ32, if_neg (by omega)]

include hh in
theorem chargeQ32_eq_of_nonneg {dt : ℤ} (hdt : 0 ≤ dt) :
    chargeQ32 dt halfLifeMs = (q32 - powHalfQ32 dt halfLifeMs) * halfLifeMs / ln2Q32 := by
  rcases hdt.eq_or_lt with rfl | hpos
  · simp [powHalfQ32]
  · exact chargeQ32_eq hpos hh

include hh in
theorem powHalfQ32_anti {d₁ d₂ : ℤ} (h1 : 0 ≤ d₁) (h12 : d₁ ≤ d₂)
    (h : ¬(reducedArgument d₁ halfLifeMs = climbStep ∧
      reducedArgument d₂ halfLifeMs = climbStep + 1)) :
    powHalfQ32 d₂ halfLifeMs ≤ powHalfQ32 d₁ halfLifeMs := by
  rw [powHalfQ32_eq hh h1, powHalfQ32_eq hh (h1.trans h12)]
  refine expNegQ32_anti (Int.ediv_le_ediv hh ?_) h
  exact mul_le_mul_of_nonneg_right h12 (by norm_num [ln2Q32])

include hh in
theorem powHalfQ32_of_reduced {tMs : ℤ} (ht : 0 ≤ tMs) {x : ℕ} (hx : 0 < x) (hmax : x < maxReduced)
    (h : reducedArgument tMs halfLifeMs = x) : powHalfQ32 tMs halfLifeMs = expReduced x := by
  rw [reducedArgument] at h
  rw [maxReduced] at hmax
  have hdiv := Int.toNat_natCast x
  rw [powHalfQ32_eq hh ht, expNegQ32_eq (by omega) (by rw [q32]; omega), h, hdiv]

include hh in
/-- Longer support never charges less and longer idleness never keeps more, exactly when the
two durations do not straddle the one step where `exp_neg_q32` climbs. -/
theorem conviction_monotone_iff {d₁ d₂ : ℤ} (h1 : 0 ≤ d₁) (h12 : d₁ ≤ d₂) :
    (chargeQ32 d₁ halfLifeMs ≤ chargeQ32 d₂ halfLifeMs ∧
        ∀ c, 0 ≤ c → decayQ32 c d₂ halfLifeMs ≤ decayQ32 c d₁ halfLifeMs) ↔
      ¬(reducedArgument d₁ halfLifeMs = climbStep ∧
        reducedArgument d₂ halfLifeMs = climbStep + 1) := by
  have h2 := h1.trans h12
  constructor
  · rintro ⟨-, hdecay⟩ ⟨hr1, hr2⟩
    -- a pool of one shows the climb
    have hone := hdecay q32 (by norm_num [q32])
    obtain ⟨-, hat, hafter, -⟩ := expReduced_climb
    rw [decayQ32_eq hh _ h1, decayQ32_eq hh _ h2,
      powHalfQ32_of_reduced hh h1 (by norm_num [climbStep])
        (by norm_num [climbStep, maxReduced]) hr1,
      powHalfQ32_of_reduced hh h2 (Nat.succ_pos climbStep)
        (by norm_num [climbStep, maxReduced]) (by exact_mod_cast hr2), hat, hafter] at hone
    norm_num [q32] at hone
  · intro h
    have hpow := powHalfQ32_anti hh h1 h12 h
    refine ⟨?_, fun c hc => ?_⟩
    · rw [chargeQ32_eq_of_nonneg hh h1, chargeQ32_eq_of_nonneg hh h2]
      refine Int.ediv_le_ediv (by norm_num [ln2Q32]) ?_
      exact mul_le_mul_of_nonneg_right (by omega) hh.le
    · rw [decayQ32_eq hh _ h1, decayQ32_eq hh _ h2]
      exact Int.ediv_le_ediv (by norm_num) (mul_le_mul_of_nonneg_left hpow hc)

end Monotone

/-- One half-life against two. -/
theorem conviction_monotone_doubled :
    chargeQ32 1000 1000 ≤ chargeQ32 2000 1000 := by
  refine ((conviction_monotone_iff (show (0 : ℤ) < 1000 by norm_num)
    (show (0 : ℤ) ≤ 1000 by norm_num) (show (1000 : ℤ) ≤ 2000 by norm_num)).mpr ?_).1
  decide

/-- With a half-life of 35 days, one millisecond more of support after 462 days: the charge
and the conviction of the supporter fall, and an idle pool grows. -/
theorem conviction_falls :
    chargeQ32 39916925966 3024000000 < chargeQ32 39916925965 3024000000 ∧
      decayQ32 q32 39916925965 3024000000 < decayQ32 q32 39916925966 3024000000 ∧
      (callRun 3024000000 [⟨true, 0, 0⟩]).convictionAt 39916925966 3024000000
        < (callRun 3024000000 [⟨true, 0, 0⟩]).convictionAt 39916925965 3024000000 := by
  decide +kernel

end Harmony.Voting
