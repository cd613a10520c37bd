import Mathlib

/-! Items stamped ahead of a reader's clock are held back until the clock is within the
tolerated skew. What a reader admits changes only when the earliest item held back comes
due, so a reading may be kept until then. -/

namespace Harmony.Lib

variable {α : Type} (stamp : α → ℕ) (skew : ℕ)

/-- What a reader admits; without a clock, everything. -/
def admittedAt (items : List α) : Option ℕ → List α
  | some now => items.filter fun a => !decide (stamp a - now > skew)
  | none => items

/-- When the earliest item held back at `now` comes due. -/
def nextDue (items : List α) (now : Option ℕ) : Option ℕ :=
  now.bind fun now =>
    (((items.map stamp).filter fun w => decide (w - now > skew)).min?).map (· - skew)

variable {stamp skew} {items : List α} {now later : ℕ}

/-- Each item held back comes due at the next due time or after it. -/
theorem nextDue_le {a : α} (ha : a ∈ items) (hheld : stamp a - now > skew) :
    ∃ t, nextDue stamp skew items (some now) = some t ∧ t ≤ stamp a - skew := by
  have hmem : stamp a ∈ (items.map stamp).filter fun w => decide (w - now > skew) :=
    List.mem_filter.mpr ⟨List.mem_map_of_mem ha, decide_eq_true hheld⟩
  cases hmin : ((items.map stamp).filter fun w => decide (w - now > skew)).min? with
  | none =>
    rw [List.min?_eq_none_iff] at hmin
    rw [hmin] at hmem
    cases hmem
  | some w =>
    have hle : w ≤ stamp a := (List.min?_eq_some_iff.mp hmin).2 _ hmem
    refine ⟨w - skew, ?_, Nat.sub_le_sub_right hle skew⟩
    simp only [nextDue, Option.bind_some, hmin, Option.map_some]

/-- Until the next due time a later reading admits the same items. -/
theorem admitted_until (hle : now ≤ later)
    (hdue : ∀ t, nextDue stamp skew items (some now) = some t → later < t) :
    admittedAt stamp skew items (some later) = admittedAt stamp skew items (some now) := by
  refine List.filter_congr fun a ha => ?_
  rw [Bool.not_inj_iff, decide_eq_decide]
  constructor
  · intro h
    omega
  · intro h
    obtain ⟨t, ht, hta⟩ := nextDue_le ha h
    have hlater := hdue t ht
    omega

end Harmony.Lib
