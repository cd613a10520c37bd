import Harmony.Lib.Keyed

/-! A bounded memory of stamped keys. Stamps are kept for a period; over a cap the
oldest are dropped first. -/

namespace Harmony.Lib.BTreeMap

open Std

variable {κ : Type}

/-- The older of the best entry so far and the next; on a tie the first stays. -/
def older (best : Option (κ × ℕ)) (p : κ × ℕ) : Option (κ × ℕ) :=
  match best with
  | none => some p
  | some b => if p.2 < b.2 then some p else some b

theorem foldl_older {l : List (κ × ℕ)} {best : Option (κ × ℕ)} {q : κ × ℕ}
    (h : l.foldl older best = some q) :
    (best = some q ∨ q ∈ l) ∧ (∀ b, best = some b → q.2 ≤ b.2) ∧ ∀ p ∈ l, q.2 ≤ p.2 := by
  induction l generalizing best with
  | nil =>
    refine ⟨Or.inl h, fun b hb => ?_, by simp⟩
    rw [List.foldl_nil, hb] at h
    rw [Option.some.inj h]
  | cons p l ih =>
    rw [List.foldl_cons] at h
    obtain ⟨hmem, hbest, hl⟩ := ih h
    cases best with
    | none =>
      refine ⟨Or.inr ?_, by simp, fun p' hp' => ?_⟩
      · rcases hmem with hp | hq
        · rw [← Option.some.inj hp]
          exact List.mem_cons_self
        · exact List.mem_cons_of_mem _ hq
      · rcases List.mem_cons.mp hp' with rfl | hp'
        · exact hbest _ rfl
        · exact hl _ hp'
    | some b =>
      by_cases hlt : p.2 < b.2
      · rw [older, if_pos hlt] at hmem hbest
        have hqp := hbest p rfl
        refine ⟨Or.inr ?_, fun b' hb' => ?_, fun p' hp' => ?_⟩
        · rcases hmem with hp | hq
          · rw [← Option.some.inj hp]
            exact List.mem_cons_self
          · exact List.mem_cons_of_mem _ hq
        · rw [← Option.some.inj hb']
          exact hqp.trans hlt.le
        · rcases List.mem_cons.mp hp' with rfl | hp'
          · exact hqp
          · exact hl _ hp'
      · rw [older, if_neg hlt] at hmem hbest
        have hqb := hbest b rfl
        refine ⟨hmem.imp_right (List.mem_cons_of_mem _), hbest, fun p' hp' => ?_⟩
        rcases List.mem_cons.mp hp' with rfl | hp'
        · exact hqb.trans (le_of_not_gt hlt)
        · exact hl _ hp'

theorem foldl_older_some (l : List (κ × ℕ)) (b : κ × ℕ) : ∃ q, l.foldl older (some b) = some q := by
  induction l generalizing b with
  | nil => exact ⟨b, rfl⟩
  | cons p l ih =>
    rw [List.foldl_cons, older]
    split_ifs
    · exact ih p
    · exact ih b

variable [Ord κ] [TransOrd κ]

def oldest (m : BTreeMap κ ℕ) : Option κ := (m.toList.foldl older none).map Prod.fst

def dropOldest (m : BTreeMap κ ℕ) : BTreeMap κ ℕ := (oldest m).elim m m.erase

/-- Drops the oldest entries until at most `cap` are left. -/
def evict (cap : ℕ) (m : BTreeMap κ ℕ) : BTreeMap κ ℕ := dropOldest^[m.size - cap] m

/-- Drops what is as old as the period, then the oldest over the cap. -/
def prune (period cap now : ℕ) (m : BTreeMap κ ℕ) : BTreeMap κ ℕ :=
  evict cap (m.filter fun _ t => now - t < period)

/-- What is left of a map when some of its oldest entries are dropped. -/
structure Oldest (m m' : BTreeMap κ ℕ) : Prop where
  kept : ∀ (k : κ) t, m'[k]? = some t → m[k]? = some t
  dropped : ∀ (k : κ) t, m[k]? = some t → m'[k]? = none → ∀ (k' : κ) t', m'[k']? = some t' → t ≤ t'

theorem Oldest.refl (m : BTreeMap κ ℕ) : Oldest m m :=
  ⟨fun _ _ h => h, fun _ _ h hn => absurd (h.symm.trans hn) (by simp)⟩

theorem Oldest.trans {m₁ m₂ m₃ : BTreeMap κ ℕ} (h : Oldest m₁ m₂) (h' : Oldest m₂ m₃) :
    Oldest m₁ m₃ := by
  refine ⟨fun k t hk => h.kept k t (h'.kept k t hk), fun k t hk hn k' t' hk' => ?_⟩
  cases h₂ : m₂[k]? with
  | none => exact h.dropped k t hk h₂ k' t' (h'.kept k' t' hk')
  | some u =>
    have hu : u = t := Option.some.inj ((h.kept k u h₂).symm.trans hk)
    exact h'.dropped k t (hu ▸ h₂) hn k' t' hk'

/-- Every entry younger than the period is kept, or as many as the cap are and none of
them is older than it. -/
structure Kept (period cap now : ℕ) (m m' : BTreeMap κ ℕ) : Prop where
  old : ∀ (k : κ) t, m'[k]? = some t → m[k]? = some t ∧ now - t < period
  size_le : m'.size ≤ cap
  young : ∀ (k : κ) t, m[k]? = some t → now - t < period →
    m'[k]? = some t ∨ m'.size = cap ∧ ∀ (k' : κ) t', m'[k']? = some t' → t ≤ t'

variable [LawfulEqOrd κ] {m : BTreeMap κ ℕ}

theorem exists_oldest (hm : 0 < m.size) :
    ∃ k t, oldest m = some k ∧ m[k]? = some t ∧ ∀ (k' : κ) t', m[k']? = some t' → t ≤ t' := by
  obtain ⟨q, hq⟩ : ∃ q, m.toList.foldl older none = some q := by
    cases hl : m.toList with
    | nil =>
      rw [← ExtTreeMap.length_toList, hl] at hm
      exact absurd hm (lt_irrefl 0)
    | cons p l => exact foldl_older_some l p
  obtain ⟨hmem, -, hle⟩ := foldl_older hq
  refine ⟨q.1, q.2, by rw [oldest, hq]; rfl, mem_toList_iff.mp (hmem.resolve_left (by simp)), ?_⟩
  exact fun k' t' hk' => hle (k', t') (mem_toList_iff.mpr hk')

variable [DecidableEq κ]

theorem oldest_dropOldest (hm : 0 < m.size) :
    Oldest m (dropOldest m) ∧ (dropOldest m).size = m.size - 1 := by
  obtain ⟨k, t, hold, hk, hle⟩ := exists_oldest hm
  have herase : dropOldest m = m.erase k := by rw [dropOldest, hold, Option.elim_some]
  refine ⟨⟨fun a u ha => ?_, fun a u ha hn a' u' ha' => ?_⟩, ?_⟩
  · rw [herase, get_erase] at ha
    split_ifs at ha
    exact ha
  · rw [herase, get_erase] at hn ha'
    split_ifs at hn with hka
    · subst hka
      split_ifs at ha'
      rw [hk] at ha
      exact Option.some.inj ha ▸ hle a' u' ha'
    · exact absurd (ha.symm.trans hn) (by simp)
  · have hc : m.contains k = true := by
      rw [ExtTreeMap.contains_eq_isSome_getElem?, hk]
      rfl
    rw [herase, ExtTreeMap.size_erase, if_pos hc]

theorem iterate_dropOldest {n : ℕ} (h : n ≤ m.size) :
    Oldest m (dropOldest^[n] m) ∧ (dropOldest^[n] m).size = m.size - n := by
  induction n with
  | zero => exact ⟨Oldest.refl m, rfl⟩
  | succ n ih =>
    obtain ⟨hold, hsize⟩ := ih (by omega)
    rw [Function.iterate_succ_apply']
    obtain ⟨hold', hsize'⟩ := oldest_dropOldest (m := dropOldest^[n] m) (by omega)
    exact ⟨hold.trans hold', by omega⟩

theorem prune_kept (period cap now : ℕ) (m : BTreeMap κ ℕ) :
    Kept period cap now m (prune period cap now m) := by
  set young := m.filter fun _ t => decide (now - t < period) with hyoung
  have hget : ∀ k : κ, young[k]? = m[k]?.filter fun t => decide (now - t < period) := fun k =>
    ExtTreeMap.getElem?_filter'
  obtain ⟨hold, hsize⟩ := iterate_dropOldest (m := young) (n := young.size - cap) (by omega)
  refine ⟨fun k t hk => ?_, ?_, fun k t hk hage => ?_⟩
  · have := hold.kept k t hk
    rw [hget, Option.filter_eq_some_iff, decide_eq_true_eq] at this
    exact this
  · change (dropOldest^[young.size - cap] young).size ≤ cap
    omega
  · have hk' : young[k]? = some t := by
      rw [hget, hk, Option.filter_some, if_pos (by simpa using hage)]
    change (dropOldest^[young.size - cap] young)[k]? = some t ∨
      (dropOldest^[young.size - cap] young).size = cap ∧ _
    cases hn : (dropOldest^[young.size - cap] young)[k]? with
    | some u => exact Or.inl ((hold.kept k u hn).symm.trans hk')
    | none =>
      refine Or.inr ⟨?_, hold.dropped k t hk' hn⟩
      by_contra hne
      have hzero : young.size - cap = 0 := by omega
      rw [hzero, Function.iterate_zero, id_eq, hk'] at hn
      simp at hn

end Harmony.Lib.BTreeMap
