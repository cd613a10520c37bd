import Mathlib.Order.Monotone.Basic
import Mathlib.Tactic.Ring

/-! The steps of a monotone function over a range, found by bisection: where the two ends
of a range agree there is none. The search is computable, so what holds at every step is
settled by one evaluation. -/

namespace Harmony.Lib

/-- `leaf` holds wherever `f` steps up between `a` and `b`, `2 ^ k` places on. -/
def stepsSatisfy (f : ℕ → ℕ) (leaf : ℕ → Bool) : ℕ → ℕ → ℕ → Bool
  | 0, a, b => (f a).beq (f b) || leaf a
  | k + 1, a, b =>
    (f a).beq (f b) ||
      (stepsSatisfy f leaf k a (a + 2 ^ k) && stepsSatisfy f leaf k (a + 2 ^ k) b)

theorem eq_of_monotone_of_ends {f : ℕ → ℕ} (hf : Monotone f) {a b x : ℕ} (h : f a = f b)
    (hax : a ≤ x) (hxb : x < b) : f (x + 1) = f x := by
  have h1 := hf hax
  have h2 := hf (Nat.le_succ x)
  have h3 := hf (Nat.succ_le_of_lt hxb)
  simp only [Nat.succ_eq_add_one] at h2 h3
  omega

theorem stepsSatisfy_sound {f : ℕ → ℕ} (hf : Monotone f) {leaf : ℕ → Bool} {k a : ℕ}
    (h : stepsSatisfy f leaf k a (a + 2 ^ k) = true) {x : ℕ} (hax : a ≤ x) (hxb : x < a + 2 ^ k)
    (hstep : f (x + 1) ≠ f x) : leaf x = true := by
  induction k generalizing a with
  | zero =>
    have hx : x = a := by omega
    subst hx
    simp only [stepsSatisfy, Bool.or_eq_true, Nat.beq_eq] at h
    exact h.resolve_left fun he => hstep (by simpa using he.symm)
  | succ k ih =>
    have hpow : a + 2 ^ (k + 1) = a + 2 ^ k + 2 ^ k := by ring
    simp only [stepsSatisfy, Bool.or_eq_true, Nat.beq_eq, Bool.and_eq_true, hpow] at h
    rw [hpow] at hxb
    rcases h with he | ⟨hlow, hhigh⟩
    · exact absurd (eq_of_monotone_of_ends hf he hax hxb) hstep
    · rcases Nat.lt_or_ge x (a + 2 ^ k) with hlt | hge
      · exact ih hlow hax hlt
      · exact ih hhigh hge hxb

end Harmony.Lib
