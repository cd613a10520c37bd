import Harmony.Voting.Proposal

/-! What a Tier-2 proposal weighs: every account once, through its own signal or through the
one delegate it names, and the threshold the weight is held against. -/

namespace Harmony.Voting

open Harmony.Lib
open Harmony.Membership (OwnerAddr)

/-! ### Sums over a map and over accounts -/

theorem mem_keys_toFinset {υ : Type} (t : BTreeMap OwnerAddr υ) (a : OwnerAddr) :
    a ∈ t.keys.toFinset ↔ (t[a]?).isSome := by
  simp

theorem sum_toList {υ : Type} (t : BTreeMap OwnerAddr υ) (f : OwnerAddr → υ → ℤ) :
    (t.toList.map fun p => f p.1 p.2).sum = ∑ k ∈ t.keys.toFinset, (t[k]?).elim 0 (f k) := by
  rw [List.sum_toFinset _ t.nodup_keys, ← Std.ExtTreeMap.map_fst_toList_eq_keys, List.map_map]
  refine congrArg List.sum (List.map_congr_left fun p hp => ?_)
  have hget : t[p.1]? = some p.2 :=
    Std.ExtTreeMap.mem_toList_iff_getElem?_eq_some.mp hp
  simp [hget]

/-- Weighing each element by the number of those it stands for counts each of those once. -/
theorem sum_mul_card_fiber {α β : Type} [DecidableEq α] [DecidableEq β] (s : Finset α)
    (t : Finset β) (rep : α → Option β) (f : β → ℤ) (hf : ∀ b ∉ t, f b = 0) :
    ∑ b ∈ t, f b * ((s.filter fun a => rep a = some b).card : ℤ)
      = ∑ a ∈ s, (rep a).elim 0 f := by
  have hcount : ∀ b ∈ t, f b * ((s.filter fun a => rep a = some b).card : ℤ)
      = ∑ a ∈ s, if rep a = some b then f b else 0 := by
    intro b _
    rw [← Finset.sum_filter, Finset.sum_const, nsmul_eq_mul, mul_comm]
  rw [Finset.sum_congr rfl hcount, Finset.sum_comm]
  refine Finset.sum_congr rfl fun a _ => ?_
  cases rep a with
  | none => simp
  | some b =>
    by_cases hb : b ∈ t
    · simp [Finset.sum_ite_eq, hb]
    · simp [hf b hb]

namespace Tier2ProposalState

/-- Whose conviction an account counts with: its own once it has signalled, else that of its
delegate if this one has. -/
def rep (t2 : Tier2ProposalState) (g : DelegationGraph) (a : OwnerAddr) : Option OwnerAddr :=
  if (t2.perVoter[a]?).isSome then some a
  else (g.delegateOf a).filter fun d => (t2.perVoter[d]?).isSome

def convictionOf (t2 : Tier2ProposalState) (tMs : ℤ) (a : OwnerAddr) : ℤ :=
  (t2.perVoter[a]?).elim 0 fun v => v.convictionAt tMs t2.halfLifeMs

def accounts (t2 : Tier2ProposalState) (g : DelegationGraph) : Finset OwnerAddr :=
  t2.perVoter.keys.toFinset ∪ g.edges.keys.toFinset

variable (t2 : Tier2ProposalState) (g : DelegationGraph)

theorem mem_delegatorsOf (voter a : OwnerAddr) :
    a ∈ g.delegatorsOf voter ↔ g.delegateOf a = some voter := by
  simp only [DelegationGraph.delegatorsOf, List.mem_map, List.mem_filter, decide_eq_true_eq,
    Std.ExtTreeMap.mem_toList_iff_getElem?_eq_some, Prod.exists, DelegationGraph.delegateOf,
    Option.map_eq_some_iff]
  constructor
  · rintro ⟨a, d, hlc, ⟨he, rfl⟩, rfl⟩
    exact ⟨_, _, he, rfl⟩
  · rintro ⟨d, hlc, he, rfl⟩
    exact ⟨a, d, hlc, ⟨he, rfl⟩, rfl⟩

theorem nodup_delegatorsOf (voter : OwnerAddr) : (g.delegatorsOf voter).Nodup := by
  have hkeys := g.edges.nodup_keys
  rw [← Std.ExtTreeMap.map_fst_toList_eq_keys] at hkeys
  exact hkeys.sublist (List.filter_sublist.map _)

/-- The silent delegators of a voter, as accounts. -/
theorem countP_delegatorsOf (voter : OwnerAddr) {s : Finset OwnerAddr}
    (hs : g.edges.keys.toFinset ⊆ s) :
    (g.delegatorsOf voter).countP (fun d => (t2.perVoter[d]?).isNone)
      = ((s.filter fun a => (t2.perVoter[a]?).isNone).filter
          fun a => g.delegateOf a = some voter).card := by
  rw [List.countP_eq_length_filter,
    ← List.toFinset_card_of_nodup ((nodup_delegatorsOf g voter).filter _)]
  congr 1
  ext a
  simp only [List.mem_toFinset, List.mem_filter, mem_delegatorsOf, Finset.mem_filter]
  refine ⟨fun ⟨hd, hnone⟩ => ⟨⟨hs ?_, hnone⟩, hd⟩, fun ⟨⟨_, hnone⟩, hd⟩ => ⟨hd, hnone⟩⟩
  rw [DelegationGraph.delegateOf, Option.map_eq_some_iff] at hd
  obtain ⟨p, hp, _⟩ := hd
  rw [mem_keys_toFinset, hp]
  rfl

/-- With delegation allowed the total is the sum, over any accounts that include all that
take part, of the conviction each account counts with. -/
theorem total_eq_sum_accounts (tMs : ℤ) (hallowed : t2.config.delegationAllowed = true)
    {s : Finset OwnerAddr} (hs : t2.accounts g ⊆ s) :
    t2.totalConvictionAtWithDelegation tMs g
      = ∑ a ∈ s, (t2.rep g a).elim 0 (t2.convictionOf tMs) := by
  have hvoters : t2.perVoter.keys.toFinset ⊆ s := Finset.subset_union_left.trans hs
  have hedges : g.edges.keys.toFinset ⊆ s := Finset.subset_union_right.trans hs
  have hzero : ∀ a ∉ t2.perVoter.keys.toFinset, t2.convictionOf tMs a = 0 := by
    intro a ha
    rw [mem_keys_toFinset, Option.not_isSome_iff_eq_none] at ha
    simp [convictionOf, ha]
  -- own weight and the weight of the silent delegators, voter by voter
  have hvoter : ∀ v ∈ t2.perVoter.keys.toFinset,
      ((t2.perVoter[v]?).elim 0 fun st => st.convictionAt tMs t2.halfLifeMs *
          (1 + ((g.delegatorsOf v).countP fun d => (t2.perVoter[d]?).isNone : ℤ)))
        = t2.convictionOf tMs v + t2.convictionOf tMs v *
          (((s.filter fun a => (t2.perVoter[a]?).isNone).filter
            fun a => g.delegateOf a = some v).card : ℤ) := by
    intro v _
    rw [countP_delegatorsOf t2 g v hedges, convictionOf]
    cases t2.perVoter[v]? with
    | none => simp
    | some st => simp only [Option.elim_some]; ring
  rw [totalConvictionAtWithDelegation, if_pos hallowed,
    sum_toList t2.perVoter fun v st => st.convictionAt tMs t2.halfLifeMs *
      (1 + ((g.delegatorsOf v).countP fun d => (t2.perVoter[d]?).isNone : ℤ)),
    Finset.sum_congr rfl hvoter, Finset.sum_add_distrib,
    sum_mul_card_fiber _ _ g.delegateOf (t2.convictionOf tMs) hzero,
    ← Finset.sum_filter_add_sum_filter_not s fun a => (t2.perVoter[a]?).isNone, add_comm]
  congr 1
  · refine Finset.sum_congr rfl fun a ha => ?_
    have hnone : t2.perVoter[a]? = none := by simpa using (Finset.mem_filter.mp ha).2
    rw [rep, if_neg (by simp [hnone])]
    cases g.delegateOf a with
    | none => rfl
    | some d =>
      by_cases hd : (t2.perVoter[d]?).isSome
      · simp [Option.filter, hd]
      · simp [Option.filter, hd, hzero d (by rwa [mem_keys_toFinset])]
  · have hset : s.filter (fun a => ¬ (t2.perVoter[a]?).isNone) = t2.perVoter.keys.toFinset := by
      ext a
      rw [Finset.mem_filter, mem_keys_toFinset, Bool.not_eq_true, Option.isNone_eq_false_iff]
      exact ⟨fun h => h.2, fun h => ⟨hvoters ((mem_keys_toFinset _ a).mpr h), h⟩⟩
    rw [hset]
    refine Finset.sum_congr rfl fun a ha => ?_
    rw [rep, if_pos ((mem_keys_toFinset _ a).mp ha), Option.elim_some]

/-- One voter with a delegator who stays silent and one who does not. -/
theorem total_eq_sum_accounts_three :
    let t2 : Tier2ProposalState :=
      { config := ⟨"", 1, 0, 0, 2, true, .none, ⟨0, none, none⟩⟩
        totalSupply := 3
        perVoter := (Std.ExtTreeMap.empty.insert 1 { accumulatedConviction := 10 }).insert 2
          { accumulatedConviction := 7 } }
    let g : DelegationGraph :=
      { edges := (Std.ExtTreeMap.empty.insert 2 (1, toLex (1, 0))).insert 3 (1, toLex (1, 0)) }
    t2.totalConvictionAtWithDelegation 0 g
      = ∑ a ∈ t2.accounts g, (t2.rep g a).elim 0 (t2.convictionOf 0) :=
  total_eq_sum_accounts _ _ 0 rfl subset_rfl

/-! ### The threshold -/

/-- `1 - ratio` in Q96.32: the share of the supply that does not support. -/
def oneMinusRatio (t2 : Tier2ProposalState) : ℤ :=
  q32 - max 0 (min (t2.effectiveSupplyAt * q32 / t2.totalSupply) q32)

/-- `(1 - ratio) ^ beta`, rounded down at every product. -/
def participationPow (t2 : Tier2ProposalState) : ℤ :=
  (fun p => p * t2.oneMinusRatio / 2 ^ 32)^[t2.config.beta - 1] t2.oneMinusRatio

/-- The thresholds are `i128`, and so are the width of the band and its product with the
power. -/
structure FitsI128 (t2 : Tier2ProposalState) : Prop where
  min : -2 ^ 127 ≤ t2.config.thresholdMinQ32
  max : t2.config.thresholdMaxQ32 < 2 ^ 127
  span : t2.config.thresholdMaxQ32 - t2.config.thresholdMinQ32 < 2 ^ 127
  product : (t2.config.thresholdMaxQ32 - t2.config.thresholdMinQ32) * t2.participationPow < 2 ^ 127

theorem wrapI128_of_fits {x : ℤ} (h0 : -2 ^ 127 ≤ x) (h1 : x < 2 ^ 127) : wrapI128 x = x := by
  rw [wrapI128, Int.bmod_eq_of_le] <;> omega

theorem oneMinusRatio_mem : 0 ≤ t2.oneMinusRatio ∧ t2.oneMinusRatio ≤ q32 := by
  unfold oneMinusRatio
  have : (0 : ℤ) < q32 := by norm_num [q32]
  omega

theorem mul_shift_mem {a b : ℤ} (ha : 0 ≤ a ∧ a ≤ q32) (hb : 0 ≤ b ∧ b ≤ q32) :
    0 ≤ a * b / 2 ^ 32 ∧ a * b / 2 ^ 32 ≤ q32 := by
  refine ⟨Int.ediv_nonneg (mul_nonneg ha.1 hb.1) (by norm_num), ?_⟩
  refine Int.ediv_le_of_le_mul (by norm_num) ?_
  calc a * b ≤ q32 * q32 := mul_le_mul ha.2 hb.2 hb.1 (by norm_num [q32])
    _ = q32 * 2 ^ 32 := by rw [q32]

theorem iterate_mul_shift_le {a b : ℤ} (ha : 0 ≤ a) (hab : a ≤ b) (hb : b ≤ q32) (n : ℕ) :
    let pow := fun c : ℤ => (fun p => p * c / 2 ^ 32)^[n] c
    0 ≤ pow a ∧ pow a ≤ pow b ∧ pow b ≤ q32 := by
  intro pow
  induction n with
  | zero => exact ⟨ha, hab, hb⟩
  | succ n ih =>
    obtain ⟨h0, hle, h1⟩ := ih
    simp only [pow, Function.iterate_succ_apply']
    have hpa := mul_shift_mem ⟨h0, hle.trans h1⟩ ⟨ha, hab.trans hb⟩
    have hpb := mul_shift_mem ⟨h0.trans hle, h1⟩ ⟨ha.trans hab, hb⟩
    refine ⟨hpa.1, Int.ediv_le_ediv (by norm_num) ?_, hpb.2⟩
    exact mul_le_mul hle hab ha (h0.trans hle)

theorem participationPow_mem : 0 ≤ t2.participationPow ∧ t2.participationPow ≤ q32 := by
  obtain ⟨h0, h1⟩ := oneMinusRatio_mem t2
  obtain ⟨hnonneg, _, hle⟩ := iterate_mul_shift_le h0 le_rfl h1 (t2.config.beta - 1)
  exact ⟨hnonneg, hle⟩

theorem span_share_mem {span pow : ℤ} (hspan : 0 ≤ span) (h0 : 0 ≤ pow) (h1 : pow ≤ q32) :
    0 ≤ span * pow / 2 ^ 32 ∧ span * pow / 2 ^ 32 ≤ span := by
  refine ⟨Int.ediv_nonneg (mul_nonneg hspan h0) (by norm_num), ?_⟩
  refine Int.ediv_le_of_le_mul (by norm_num) ?_
  calc span * pow ≤ span * q32 := mul_le_mul_of_nonneg_left h1 hspan
    _ = span * 2 ^ 32 := by rw [q32]

theorem fitsI128_of_lt (hmin : 0 ≤ t2.config.thresholdMinQ32)
    (hband : t2.config.thresholdMinQ32 ≤ t2.config.thresholdMaxQ32)
    (hmax : t2.config.thresholdMaxQ32 < 2 ^ 95) : t2.FitsI128 := by
  obtain ⟨h0, h1⟩ := participationPow_mem t2
  refine ⟨by omega, by omega, by omega, ?_⟩
  calc (t2.config.thresholdMaxQ32 - t2.config.thresholdMinQ32) * t2.participationPow
      ≤ (t2.config.thresholdMaxQ32 - t2.config.thresholdMinQ32) * q32 :=
        mul_le_mul_of_nonneg_left h1 (sub_nonneg.mpr hband)
    _ < 2 ^ 127 := by rw [q32]; omega

theorem threshold_eq (hband : t2.config.thresholdMinQ32 ≤ t2.config.thresholdMaxQ32)
    (hfits : t2.FitsI128) (hsupply : t2.totalSupply ≠ 0) (hbeta : t2.config.beta ≠ 0) :
    t2.thresholdConvictionAt = t2.config.thresholdMinQ32 +
      (t2.config.thresholdMaxQ32 - t2.config.thresholdMinQ32) * t2.participationPow / 2 ^ 32 := by
  obtain ⟨h0, h1⟩ := participationPow_mem t2
  have hproduct := mul_nonneg (sub_nonneg.mpr hband) h0
  have hshare := span_share_mem (sub_nonneg.mpr hband) h0 h1
  obtain ⟨hmin, hmax, hspan, hmul⟩ := hfits
  rw [thresholdConvictionAt, if_neg hsupply, if_neg hbeta]
  change wrapI128 (t2.config.thresholdMinQ32 + wrapI128
    (wrapI128 (t2.config.thresholdMaxQ32 - t2.config.thresholdMinQ32) * t2.participationPow)
      / 2 ^ 32) = _
  rw [wrapI128_of_fits (by omega) hspan, wrapI128_of_fits (by omega) hmul,
    wrapI128_of_fits (by omega) (by omega)]

/-- The threshold stays within its band, and with more supporters it never rises. -/
theorem threshold_in_band_antitone (hband : t2.config.thresholdMinQ32 ≤ t2.config.thresholdMaxQ32)
    (hfits : t2.FitsI128) :
    t2.config.thresholdMinQ32 ≤ t2.thresholdConvictionAt ∧
      t2.thresholdConvictionAt ≤ t2.config.thresholdMaxQ32 ∧
      ∀ more : Tier2ProposalState, more.config = t2.config → more.totalSupply = t2.totalSupply →
        t2.effectiveSupplyAt ≤ more.effectiveSupplyAt →
        more.thresholdConvictionAt ≤ t2.thresholdConvictionAt := by
  by_cases hspecial : t2.totalSupply = 0 ∨ t2.config.beta = 0
  · have hmax : ∀ t : Tier2ProposalState, t.config = t2.config →
        t.totalSupply = t2.totalSupply →
        t.thresholdConvictionAt = t2.config.thresholdMaxQ32 := by
      intro t hc hs
      rw [thresholdConvictionAt, hc, hs]
      rcases hspecial with h | h
      · rw [if_pos h]
      · rw [if_pos h, ite_self]
    rw [hmax t2 rfl rfl]
    exact ⟨hband, le_rfl, fun more hc hs _ => (hmax more hc hs).le⟩
  · obtain ⟨hsupply, hbeta⟩ := not_or.mp hspecial
    obtain ⟨h0, h1⟩ := participationPow_mem t2
    have hshare := span_share_mem (sub_nonneg.mpr hband) h0 h1
    rw [threshold_eq t2 hband hfits hsupply hbeta]
    refine ⟨by omega, by omega, fun more hc hs hmore => ?_⟩
    have hratio : more.oneMinusRatio ≤ t2.oneMinusRatio := by
      have hdiv : (t2.effectiveSupplyAt : ℤ) * q32 / t2.totalSupply
          ≤ more.effectiveSupplyAt * q32 / t2.totalSupply := by
        refine Int.ediv_le_ediv (by omega) ?_
        exact mul_le_mul_of_nonneg_right (by exact_mod_cast hmore) (by norm_num [q32])
      rw [oneMinusRatio, oneMinusRatio, hs]
      exact sub_le_sub_left (max_le_max_left 0 (min_le_min_right q32 hdiv)) q32
    have hpow : more.participationPow ≤ t2.participationPow := by
      rw [participationPow, participationPow, hc]
      exact (iterate_mul_shift_le (oneMinusRatio_mem more).1 hratio (oneMinusRatio_mem t2).2 _).2.1
    have hproduct := mul_le_mul_of_nonneg_left hpow (sub_nonneg.mpr hband)
    have hfits' : more.FitsI128 := by
      refine ⟨hc ▸ hfits.min, hc ▸ hfits.max, hc ▸ hfits.span, ?_⟩
      rw [hc]
      exact hproduct.trans_lt hfits.product
    rw [threshold_eq more (hc ▸ hband) hfits' (hs ▸ hsupply) (hc ▸ hbeta), hc]
    have hshare' := Int.ediv_le_ediv (show (0 : ℤ) < 2 ^ 32 by norm_num) hproduct
    omega

/-- Three supporters of a supply of two: the floor of the band. -/
theorem threshold_in_band_oversubscribed :
    let t2 : Tier2ProposalState :=
      { config := ⟨"", 1, 5, 40, 3, true, .none, ⟨0, none, none⟩⟩
        totalSupply := 2
        perVoter := ((Std.ExtTreeMap.empty.insert 1 { isSupporting := true }).insert 2
          { isSupporting := true }).insert 3 { isSupporting := true } }
    5 ≤ t2.thresholdConvictionAt ∧ t2.thresholdConvictionAt ≤ 40 := by
  intro t2
  have hfits : t2.FitsI128 := fitsI128_of_lt t2 (by norm_num [t2]) (by norm_num [t2])
    (by norm_num [t2])
  have h := threshold_in_band_antitone t2 (by norm_num [t2]) hfits
  exact ⟨h.1, h.2.1⟩

end Tier2ProposalState
end Harmony.Voting
