import Mathlib.Data.List.Sort

/-! `slice::binary_search`: the window over a sorted list is halved by its size until one
place is left, which holds the wanted element or nothing does. -/

namespace Harmony.Lib

variable {α : Type} [LinearOrder α]

/-- The loop on the window of `size` places from `base`; the fuel bounds its rounds. -/
def narrow (l : List α) (x : α) : ℕ → ℕ → ℕ → ℕ
  | 0, base, _ => base
  | fuel + 1, base, size =>
    if 1 < size then
      let half := size / 2
      let mid := base + half
      narrow l x fuel (if l[mid]?.any (x < ·) then base else mid) (size - half)
    else base

def binarySearch (l : List α) (x : α) : Option ℕ :=
  let base := narrow l x l.length 0 l.length
  if l[base]? = some x then some base else none

/-- The window never loses the place of the element. -/
theorem narrow_eq {l : List α} (hsorted : l.Pairwise (· < ·)) {x : α} {i : ℕ} (hi : l[i]? = some x)
    {fuel base size : ℕ} (hfuel : size ≤ fuel + 1) (hwindow : base + size ≤ l.length)
    (hbase : base ≤ i) (hsize : i < base + size) : narrow l x fuel base size = i := by
  induction fuel generalizing base size with
  | zero =>
    rw [narrow]
    omega
  | succ fuel ih =>
    rw [narrow]
    split_ifs with hone
    · have hmid : base + size / 2 < l.length := by omega
      obtain ⟨hlt, hx⟩ := List.getElem?_eq_some_iff.mp hi
      dsimp only
      rw [List.getElem?_eq_getElem hmid, Option.any_some]
      by_cases hgt : x < l[base + size / 2]
      · have hbelow : i < base + size / 2 := by
          by_contra hge
          have hle : l[base + size / 2] ≤ l[i] := by
            rcases (not_lt.mp hge).eq_or_lt with heq | hlt'
            · exact le_of_eq (getElem_congr_idx heq)
            · exact (List.pairwise_iff_getElem.mp hsorted _ _ hmid hlt hlt').le
          rw [hx] at hle
          exact absurd hgt (not_lt.mpr hle)
        rw [if_pos (decide_eq_true hgt)]
        exact ih (by omega) (by omega) hbase (by omega)
      · have habove : base + size / 2 ≤ i := by
          by_contra hlt'
          have hlt'' : l[i] < l[base + size / 2] :=
            List.pairwise_iff_getElem.mp hsorted i (base + size / 2) hlt hmid (not_le.mp hlt')
          rw [hx] at hlt''
          exact hgt hlt''
        rw [if_neg (by simpa using hgt)]
        exact ih (by omega) (by omega) habove (by omega)
    · omega

theorem binarySearch_eq_some {l : List α} (hsorted : l.Pairwise (· < ·)) {x : α} {i : ℕ} :
    binarySearch l x = some i ↔ l[i]? = some x := by
  unfold binarySearch
  constructor
  · intro h
    dsimp only at h
    split_ifs at h with hx
    rwa [← Option.some.inj h]
  · intro hi
    have hlt := (List.getElem?_eq_some_iff.mp hi).1
    have hnarrow : narrow l x l.length 0 l.length = i :=
      narrow_eq hsorted hi (by omega) (by omega) (Nat.zero_le i) (by omega)
    dsimp only
    rw [hnarrow, if_pos hi]

theorem binarySearch_eq_none {l : List α} (hsorted : l.Pairwise (· < ·)) {x : α} :
    binarySearch l x = none ↔ x ∉ l := by
  constructor
  · intro h hmem
    obtain ⟨i, hi⟩ := List.mem_iff_getElem?.mp hmem
    rw [(binarySearch_eq_some hsorted).mpr hi] at h
    cases h
  · intro hx
    cases h : binarySearch l x with
    | none => rfl
    | some i => exact absurd (List.mem_of_getElem? ((binarySearch_eq_some hsorted).mp h)) hx

end Harmony.Lib
