import Harmony.Voting.ExpNeg

/-! The conviction of a voter does not jump when support is toggled, and no pattern of
toggling carries it past what uninterrupted support would reach in the limit. -/

namespace Harmony.Voting

/-- What support approaches and never exceeds: `halfLife / ln 2`. -/
def convictionCeiling (halfLifeMs : ℤ) : ℤ := q32 * halfLifeMs / ln2Q32

/-! ### One fold of the pool -/

section Fold

variable {halfLifeMs : ℤ}

theorem decayQ32_of_nonpos (c : ℤ) {dt : ℤ} (h : dt ≤ 0) : decayQ32 c dt halfLifeMs = c := by
  rw [decayQ32, if_pos (Or.inl h)]

theorem chargeQ32_of_nonpos {dt : ℤ} (h : dt ≤ 0) : chargeQ32 dt halfLifeMs = 0 := by
  rw [chargeQ32, if_pos (Or.inl h)]

theorem decayQ32_nonneg {c : ℤ} (hc : 0 ≤ c) (dt : ℤ) : 0 ≤ decayQ32 c dt halfLifeMs := by
  unfold decayQ32
  split
  · exact hc
  · exact Int.ediv_nonneg (mul_nonneg hc (powHalfQ32_mem dt halfLifeMs).1) (by norm_num)

theorem chargeQ32_eq {dt : ℤ} (hdt : 0 < dt) (hh : 0 < halfLifeMs) :
    chargeQ32 dt halfLifeMs = (q32 - powHalfQ32 dt halfLifeMs) * halfLifeMs / ln2Q32 := by
  have hle := (powHalfQ32_mem dt halfLifeMs).2
  rw [chargeQ32, if_neg (by omega), Int.tdiv_eq_ediv_of_nonneg]
  exact mul_nonneg (by omega) hh.le

theorem chargeQ32_nonneg (hh : 0 < halfLifeMs) (dt : ℤ) : 0 ≤ chargeQ32 dt halfLifeMs := by
  rcases le_or_gt dt 0 with hdt | hdt
  · rw [chargeQ32_of_nonpos hdt]
  · rw [chargeQ32_eq hdt hh]
    have hle := (powHalfQ32_mem dt halfLifeMs).2
    exact Int.ediv_nonneg (mul_nonneg (by omega) hh.le) (by norm_num [ln2Q32])

theorem decay_add_charge_le {c : ℤ} (hh : 0 < halfLifeMs) (hc : c ≤ convictionCeiling halfLifeMs)
    (dt : ℤ) :
    decayQ32 c dt halfLifeMs + chargeQ32 dt halfLifeMs ≤ convictionCeiling halfLifeMs := by
  rcases le_or_gt dt 0 with hdt | hdt
  · rwa [decayQ32_of_nonpos c hdt, chargeQ32_of_nonpos hdt, add_zero]
  · have hp := powHalfQ32_mem dt halfLifeMs
    rw [chargeQ32_eq hdt hh, decayQ32, if_neg (by omega)]
    generalize powHalfQ32 dt halfLifeMs = p at hp ⊢
    have hln : (0 : ℤ) < ln2Q32 := by norm_num [ln2Q32]
    rw [convictionCeiling, Int.le_ediv_iff_mul_le hln] at hc ⊢
    have hcharge : (q32 - p) * halfLifeMs / ln2Q32 * ln2Q32 ≤ (q32 - p) * halfLifeMs :=
      Int.ediv_mul_le _ hln.ne'
    have hdecay : c * p / 2 ^ 32 * ln2Q32 ≤ halfLifeMs * p := by
      have hfloor : c * p / 2 ^ 32 * 2 ^ 32 ≤ c * p := Int.ediv_mul_le _ (by norm_num)
      have hscaled : c * p / 2 ^ 32 * ln2Q32 * 2 ^ 32 ≤ halfLifeMs * p * 2 ^ 32 := by
        calc c * p / 2 ^ 32 * ln2Q32 * 2 ^ 32 = c * p / 2 ^ 32 * 2 ^ 32 * ln2Q32 := by ring
          _ ≤ c * p * ln2Q32 := mul_le_mul_of_nonneg_right hfloor hln.le
          _ = c * ln2Q32 * p := by ring
          _ ≤ q32 * halfLifeMs * p := mul_le_mul_of_nonneg_right hc hp.1
          _ = halfLifeMs * p * 2 ^ 32 := by rw [q32]; ring
      exact le_of_mul_le_mul_right hscaled (by norm_num)
    calc (c * p / 2 ^ 32 + (q32 - p) * halfLifeMs / ln2Q32) * ln2Q32
        = c * p / 2 ^ 32 * ln2Q32 + (q32 - p) * halfLifeMs / ln2Q32 * ln2Q32 := by ring
      _ ≤ halfLifeMs * p + (q32 - p) * halfLifeMs := add_le_add hdecay hcharge
      _ = q32 * halfLifeMs := by ring

theorem decay_le {c : ℤ} (hh : 0 < halfLifeMs) (hc : c ≤ convictionCeiling halfLifeMs) (dt : ℤ) :
    decayQ32 c dt halfLifeMs ≤ convictionCeiling halfLifeMs := by
  have h := decay_add_charge_le hh hc dt
  have hcharge := chargeQ32_nonneg hh dt
  omega

end Fold

/-! ### Whole runs -/

namespace VoterConvictionState

/-- A session and the pool share their reference time, and the pool is within bounds. -/
structure Sound (halfLifeMs : ℤ) (st : VoterConvictionState) : Prop where
  session : st.isSupporting = true → st.lastEventAtMs = st.supportStartedAtMs
  nonneg : 0 ≤ st.accumulatedConviction
  le_ceiling : st.accumulatedConviction ≤ convictionCeiling halfLifeMs

variable {halfLifeMs : ℤ}

theorem sound_default (hh : 0 < halfLifeMs) : Sound halfLifeMs {} := by
  refine ⟨fun h => by simp at h, le_rfl, ?_⟩
  exact Int.ediv_nonneg (mul_nonneg (by norm_num [q32]) hh.le) (by norm_num [ln2Q32])

theorem Sound.convictionAt_mem {st : VoterConvictionState} (h : Sound halfLifeMs st)
    (hh : 0 < halfLifeMs) (tMs : ℤ) :
    0 ≤ st.convictionAt tMs halfLifeMs ∧
      st.convictionAt tMs halfLifeMs ≤ convictionCeiling halfLifeMs := by
  unfold convictionAt
  split
  · next hs =>
    rw [h.session hs]
    exact ⟨add_nonneg (decayQ32_nonneg h.nonneg _) (chargeQ32_nonneg hh _),
      decay_add_charge_le hh h.le_ceiling _⟩
  · exact ⟨decayQ32_nonneg h.nonneg _, decay_le hh h.le_ceiling _⟩

/-- A toggle folds into the pool exactly what `conviction_at` reads at that moment. -/
theorem toggle_accumulated {st : VoterConvictionState} (h : Sound halfLifeMs st)
    (support : Bool) (tMs : ℤ) (hne : support ≠ st.isSupporting) :
    (st.toggle support tMs halfLifeMs).accumulatedConviction = st.convictionAt tMs halfLifeMs ∧
      (st.toggle support tMs halfLifeMs).lastEventAtMs = tMs ∧
      (support = true → (st.toggle support tMs halfLifeMs).supportStartedAtMs = tMs) := by
  rw [toggle, if_neg hne]
  cases support with
  | true =>
    have hs : st.isSupporting = false := by simpa using hne.symm
    simp [convictionAt, hs]
  | false =>
    have hs : st.isSupporting = true := by simpa using hne.symm
    simp [convictionAt, hs, h.session hs]

theorem toggle_isSupporting (st : VoterConvictionState) (support : Bool) (tMs : ℤ) :
    (st.toggle support tMs halfLifeMs).isSupporting = support := by
  unfold toggle
  split
  · next h => exact h.symm
  · cases support <;> rfl

theorem Sound.toggle {st : VoterConvictionState} (h : Sound halfLifeMs st)
    (hh : 0 < halfLifeMs) (support : Bool) (tMs : ℤ) :
    Sound halfLifeMs (st.toggle support tMs halfLifeMs) := by
  by_cases hne : support = st.isSupporting
  · rwa [VoterConvictionState.toggle, if_pos hne]
  · obtain ⟨hacc, hlast, hstart⟩ := toggle_accumulated h support tMs hne
    obtain ⟨hnonneg, hle⟩ := h.convictionAt_mem hh tMs
    refine ⟨fun hs => ?_, by rwa [hacc], by rwa [hacc]⟩
    rw [toggle_isSupporting] at hs
    rw [hlast, hstart hs]

theorem convictionAt_toggle {st : VoterConvictionState} (h : Sound halfLifeMs st)
    (support : Bool) (tMs : ℤ) :
    (st.toggle support tMs halfLifeMs).convictionAt tMs halfLifeMs
      = st.convictionAt tMs halfLifeMs := by
  by_cases hne : support = st.isSupporting
  · rw [toggle, if_pos hne]
  · obtain ⟨hacc, hlast, hstart⟩ := toggle_accumulated h support tMs hne
    rw [← hacc, convictionAt, toggle_isSupporting, hlast, sub_self,
      decayQ32_of_nonpos _ le_rfl]
    split
    · next hs => rw [hstart hs, sub_self, chargeQ32_zero, add_zero]
    · rfl

theorem applySignal_cases (st : VoterConvictionState) (support : Bool) (tMs : ℤ) (logical : ℕ) :
    st.applySignal support tMs logical halfLifeMs = st ∨
      st.applySignal support tMs logical halfLifeMs
        = (st.bump (eventOrd tMs logical)).toggle support tMs halfLifeMs := by
  unfold applySignal
  split
  · exact Or.inl rfl
  · simp only
    split
    · exact Or.inl rfl
    · exact Or.inr rfl

theorem Sound.bump {st : VoterConvictionState} (h : Sound halfLifeMs st) (ord : HlcOrdinal) :
    Sound halfLifeMs (st.bump ord) :=
  ⟨h.session, h.nonneg, h.le_ceiling⟩

theorem Sound.applySignal {st : VoterConvictionState} (h : Sound halfLifeMs st)
    (hh : 0 < halfLifeMs) (support : Bool) (tMs : ℤ) (logical : ℕ) :
    Sound halfLifeMs (st.applySignal support tMs logical halfLifeMs) := by
  rcases applySignal_cases st support tMs logical with he | he
  · rwa [he]
  · rw [he]
    exact (h.bump _).toggle hh support tMs

theorem convictionAt_applySignal {st : VoterConvictionState} (h : Sound halfLifeMs st)
    (support : Bool) (tMs : ℤ) (logical : ℕ) :
    (st.applySignal support tMs logical halfLifeMs).convictionAt tMs halfLifeMs
      = st.convictionAt tMs halfLifeMs := by
  rcases applySignal_cases st support tMs logical with he | he
  · rw [he]
  · rw [he, convictionAt_toggle (h.bump _)]
    rfl

end VoterConvictionState

/-- The arguments of a call of `apply_signal`, whatever their range. -/
structure SignalCall where
  support : Bool
  eventHlcMs : ℤ
  eventHlcLogical : ℕ

/-- The state after the calls, from the default one. -/
def callRun (halfLifeMs : ℤ) (calls : List SignalCall) : VoterConvictionState :=
  calls.foldl (fun st c => st.applySignal c.support c.eventHlcMs c.eventHlcLogical halfLifeMs) {}

open VoterConvictionState

theorem callRun_sound {halfLifeMs : ℤ} (hh : 0 < halfLifeMs) (calls : List SignalCall) :
    Sound halfLifeMs (callRun halfLifeMs calls) := by
  induction calls using List.reverseRecOn with
  | nil => exact sound_default hh
  | append_singleton calls c ih =>
    rw [callRun, List.foldl_append]
    exact ih.applySignal hh c.support c.eventHlcMs c.eventHlcLogical

/-- Whatever the calls: a session starts where the pool was last folded, a signal does not
move the conviction at its own time, and no time sees more than the ceiling. -/
theorem conviction_continuous_bounded {halfLifeMs : ℤ} (hh : 0 < halfLifeMs)
    (calls : List SignalCall) :
    let st := callRun halfLifeMs calls
    (st.isSupporting = true → st.lastEventAtMs = st.supportStartedAtMs) ∧
    (∀ support tMs logical, (st.applySignal support tMs logical halfLifeMs).convictionAt tMs
        halfLifeMs = st.convictionAt tMs halfLifeMs) ∧
    ∀ tMs, 0 ≤ st.convictionAt tMs halfLifeMs ∧
      st.convictionAt tMs halfLifeMs ≤ q32 * halfLifeMs / ln2Q32 := by
  have h := callRun_sound hh calls
  exact ⟨h.session, convictionAt_applySignal h, h.convictionAt_mem hh⟩

/-- Support from 5 to 1005, asked for at 3000. -/
theorem conviction_bounded_toggled :
    (callRun 1000 [⟨true, 5, 0⟩, ⟨false, 1005, 0⟩]).convictionAt 3000 1000
      ≤ q32 * 1000 / ln2Q32 :=
  ((conviction_continuous_bounded (show (0 : ℤ) < 1000 by norm_num) _).2.2 3000).2

end Harmony.Voting
