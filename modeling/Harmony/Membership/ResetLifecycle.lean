import Harmony.Lib.FirstWins
import Harmony.Membership.TimeLock

/-! The lifecycle of a committee reset. Later steps only append responses with later walls
and set the quorum tip once, so that the first response keeps winning and the phases only
move forward; the exception is a veto window that runs past the last representable wall. -/

namespace Harmony.Membership

open Harmony.Lib

/-! ### What an entry is judged by -/

/-- The quorum tip that came in time and whose veto window is representable. -/
def ResetWork.tip (work : ResetWork) : Option ℕ :=
  work.tQReached.filter fun tq =>
    decide (tq - work.t0WallMs ≤ adminProposalExpiryMs) && decide (tq + work.vetoWindowMs < 2 ^ 64)

/-- Collecting has ended without a usable quorum. -/
def ResetWork.expired (work : ResetWork) (t : ℕ) : Bool := (resetDeadline work t).2

/-- The last wall at which an endorsement or a veto counts. -/
def ResetWork.responseWindowEnd (work : ResetWork) : ℕ :=
  (work.tip.map (· + work.vetoWindowMs)).getD (saturatingAdd work.t0WallMs adminProposalExpiryMs)

/-- The time after which a window that nobody answered authorizes. -/
def ResetWork.finality (work : ResetWork) : Option ℕ :=
  (work.tip.map (· + work.vetoWindowMs)).bind fun d => checkedAdd d resetFinalityMs

abbrev ResetResponse := ℕ × EventId × ResetVerdict × Option PubKey

def responseRank (r : ResetResponse) : ℕ ×ₗ ℕ := toLex (r.1, r.2.1)

def ResetWork.contests (work : ResetWork) (r : ResetResponse) : Bool :=
  decide (r.2.2.1 ≠ .consumed) && decide (work.t0WallMs ≤ r.1) &&
    decide (r.1 ≤ work.responseWindowEnd)

def ResetWork.winner (work : ResetWork) : Option ResetResponse :=
  (work.responses.filter work.contests).argmin responseRank

/-- The first response that consumes an authorization given at `a`. -/
def ResetWork.consumption (work : ResetWork) (a : ℕ) : Option ResetResponse :=
  (work.responses.filter fun r =>
    decide (r.2.2.1 = .consumed) && r.2.2.2.isSome && decide (a ≤ r.1) &&
      (checkedAdd a resetAuthorizedLapseMs).all (fun cut => decide (r.1 < cut))).argmin responseRank

section Judged

variable {work : ResetWork} {t t' d tq w : ℕ}

theorem tip_eq_some : work.tip = some tq ↔ work.tQReached = some tq ∧
    tq - work.t0WallMs ≤ adminProposalExpiryMs ∧ tq + work.vetoWindowMs < 2 ^ 64 := by
  simp only [ResetWork.tip, Option.filter_eq_some_iff, Bool.and_eq_true, decide_eq_true_eq]

theorem tip_of_unreached (h : work.tQReached = none) : work.tip = none := by
  rw [ResetWork.tip, h]
  rfl

theorem resetDeadline_of_tipped (h : work.tQReached = some tq) (t : ℕ) :
    resetDeadline work t = (work.tip.map (· + work.vetoWindowMs), work.tip.isNone) := by
  have hadd : ∀ a b : ℕ, checkedAdd a b = if a + b < 2 ^ 64 then some (a + b) else none :=
    fun _ _ => rfl
  simp only [resetDeadline, ResetWork.tip, h, hadd, Option.filter_some]
  by_cases hage : tq - work.t0WallMs ≤ adminProposalExpiryMs
  · by_cases hfits : tq + work.vetoWindowMs < 2 ^ 64
    · simp only [hage, hfits, if_true, decide_true, Bool.and_self]
      rfl
    · simp only [hage, hfits, if_true, if_false, decide_true, decide_false, Bool.and_false]
      rfl
  · simp only [hage, if_false, decide_false, Bool.false_and]
    rfl

theorem expired_of_unreached (h : work.tQReached = none) (t : ℕ) :
    work.expired t = decide (t - work.t0WallMs > adminProposalExpiryMs) := by
  simp only [ResetWork.expired, resetDeadline, h]

theorem expired_of_tipped (h : work.tQReached = some tq) (t : ℕ) :
    work.expired t = work.tip.isNone := congrArg Prod.snd (resetDeadline_of_tipped h t)

theorem resetDeadline_eq (work : ResetWork) (t : ℕ) :
    resetDeadline work t = (work.tip.map (· + work.vetoWindowMs), work.expired t) := by
  cases h : work.tQReached with
  | none =>
    rw [tip_of_unreached h]
    simp only [ResetWork.expired, resetDeadline, h, Option.map_none]
  | some tq => rw [expired_of_tipped h, resetDeadline_of_tipped h]

theorem expired_of_tip (h : work.tip = some tq) (t : ℕ) : work.expired t = false := by
  rw [expired_of_tipped (tip_eq_some.mp h).1, h]
  rfl

theorem responseWindowEnd_of_some (h : work.tip = some tq) :
    work.responseWindowEnd = tq + work.vetoWindowMs := by
  rw [ResetWork.responseWindowEnd, h, Option.map_some, Option.getD_some]

theorem responseWindowEnd_of_none (h : work.tip = none) :
    work.responseWindowEnd = saturatingAdd work.t0WallMs adminProposalExpiryMs := by
  rw [ResetWork.responseWindowEnd, h, Option.map_none, Option.getD_none]

/-- Phase, time of authorization and whether it was endorsed, from the winner and the tip. -/
theorem resetContest_eq (work : ResetWork) (t : ℕ) :
    resetContest work t =
      match work.winner, work.tip with
      | some (_, _, .veto, _), _ => (.vetoed, none, false)
      | some (w, _, .endorse, _), some tq => (.authorized, some (max w tq), true)
      | _, none => (if work.expired t then .expired else .collecting, none, false)
      | _, some _ =>
        match work.finality with
        | some fd => if fd < t then (.authorized, some fd, false) else (.window, none, false)
        | none => (.window, none, false) := by
  have hwinner : (work.responses.filter fun r => decide (r.2.2.1 ≠ .consumed) &&
      decide (work.t0WallMs ≤ r.1) && decide (r.1 ≤ (work.tip.map (· + work.vetoWindowMs)).getD
        (saturatingAdd work.t0WallMs adminProposalExpiryMs))).argmin
          (fun r => (toLex (r.1, r.2.1) : ℕ ×ₗ ℕ)) = work.winner := rfl
  have hquorum : (if work.expired t then none else work.tQReached) = work.tip := by
    cases htip : work.tip with
    | some tq => rw [expired_of_tip htip, if_neg Bool.false_ne_true, (tip_eq_some.mp htip).1]
    | none =>
      cases hreached : work.tQReached with
      | none => rw [ite_self]
      | some tq => rw [expired_of_tipped hreached, htip]; rfl
  have hfinal : ((work.tip.map (· + work.vetoWindowMs)).bind fun d =>
      checkedAdd d resetFinalityMs) = work.finality := rfl
  have hexpired : work.tip.isSome → work.expired t = false := fun h =>
    expired_of_tip (Option.some_get h).symm t
  simp only [resetContest, resetDeadline_eq, hwinner, hquorum, hfinal]
  -- from here on only which of them is there matters
  generalize work.winner = winner, work.tip = tip, work.finality = finality,
    work.expired t = expired at hexpired ⊢
  cases tip with
  | none => rcases winner with _ | ⟨w, rid, _ | _ | _, nv⟩ <;> cases expired <;> rfl
  | some tq =>
    obtain rfl := hexpired rfl
    rcases winner with _ | ⟨w, rid, _ | _ | _, nv⟩ <;> cases finality <;> rfl

theorem winner_contests {r : ResetResponse} (h : work.winner = some r) :
    r ∈ work.responses ∧ work.contests r = true :=
  List.mem_filter.mp (List.argmin_mem h)

theorem winner_ne_consumed {rid : EventId} {nv : Option PubKey} :
    work.winner ≠ some (w, rid, .consumed, nv) := by
  intro h
  simpa [ResetWork.contests] using (winner_contests h).2

theorem not_contests_of_no_winner (h : work.winner = none) {r : ResetResponse}
    (hr : r ∈ work.responses) : work.contests r = false := by
  rw [ResetWork.winner, List.argmin_eq_none, List.filter_eq_nil_iff] at h
  simpa using h r hr

end Judged

theorem le_saturatingAdd {a b c r : ℕ} (hage : c - a ≤ b) (hc : c < 2 ^ 64) (hr : r ≤ c) :
    r ≤ saturatingAdd a b := by
  have hsum : r ≤ a + b := by omega
  exact le_min hsum (by omega)

/-! ### What later steps make of an entry -/

/-- Later steps append responses and may set the quorum tip, at walls that satisfy `P`. -/
structure ResetGrown (P : ℕ → Prop) (work work' : ResetWork) : Prop where
  t0WallMs : work'.t0WallMs = work.t0WallMs
  vetoWindowMs : work'.vetoWindowMs = work.vetoWindowMs
  reached : work'.tQReached = work.tQReached ∨
    work.tQReached = none ∧ ∃ tq, P tq ∧ work'.tQReached = some tq
  responses : ∃ more, work'.responses = work.responses ++ more ∧ ∀ r ∈ more, P r.1

/-- The walls that satisfy `P` lie past what the entry holds and past the time `t`. -/
structure ResetWork.SettledBefore (P : ℕ → Prop) (work : ResetWork) (t : ℕ) : Prop where
  clock : ∀ w, P w → t < w
  responses : ∀ w, P w → ∀ r ∈ work.responses, r.1 < w
  reached : ∀ w, P w → ∀ tq, work.tQReached = some tq → tq < w

namespace ResetGrown

variable {P : ℕ → Prop} {work work' work'' : ResetWork} {t t' a tq : ℕ}

theorem refl (work : ResetWork) : ResetGrown P work work :=
  ⟨rfl, rfl, Or.inl rfl, [], (List.append_nil _).symm, fun _ h => absurd h List.not_mem_nil⟩

theorem trans (h : ResetGrown P work work') (h' : ResetGrown P work' work'') :
    ResetGrown P work work'' := by
  obtain ⟨more, hmore, hP⟩ := h.responses
  obtain ⟨more', hmore', hP'⟩ := h'.responses
  refine ⟨h'.t0WallMs.trans h.t0WallMs, h'.vetoWindowMs.trans h.vetoWindowMs, ?_,
    more ++ more', by rw [hmore', hmore, List.append_assoc], fun r hr => ?_⟩
  · rcases h.reached with hsame | ⟨hnone, tq, hP, hnew⟩
    · rw [← hsame]
      exact h'.reached
    · rcases h'.reached with hsame' | ⟨hnone', -⟩
      · exact Or.inr ⟨hnone, tq, hP, hsame'.trans hnew⟩
      · simp [hnew] at hnone'
  · rcases List.mem_append.mp hr with hr | hr
    · exact hP r hr
    · exact hP' r hr

section Settled

variable (h : ResetGrown P work work') (hb : work.SettledBefore P t)

include h

theorem tip_of_reached_eq (hsame : work'.tQReached = work.tQReached) : work'.tip = work.tip := by
  simp only [ResetWork.tip, hsame, h.t0WallMs, h.vetoWindowMs]

theorem tip_of_some (htip : work.tip = some tq) : work'.tip = some tq := by
  rcases h.reached with hsame | ⟨hnone, -⟩
  · rw [h.tip_of_reached_eq hsame, htip]
  · simp [tip_of_unreached hnone] at htip

theorem responseWindowEnd_of_tip (htip : work'.tip = work.tip) :
    work'.responseWindowEnd = work.responseWindowEnd := by
  simp only [ResetWork.responseWindowEnd, htip, h.t0WallMs, h.vetoWindowMs]

include hb

theorem contests_eq {r : ResetResponse} (hr : r ∈ work.responses) :
    work'.contests r = work.contests r := by
  suffices hend : (r.1 ≤ work'.responseWindowEnd ↔ r.1 ≤ work.responseWindowEnd) by
    simp only [ResetWork.contests, h.t0WallMs, hend]
  rcases h.reached with hsame | ⟨hnone, tq, hP, hnew⟩
  · rw [h.responseWindowEnd_of_tip (h.tip_of_reached_eq hsame)]
  · have hold : work.tip = none := tip_of_unreached hnone
    cases htip : work'.tip with
    | none => rw [h.responseWindowEnd_of_tip (htip.trans hold.symm)]
    | some tq' =>
      obtain ⟨htq, hage, hfits⟩ := tip_eq_some.mp htip
      obtain rfl := Option.some.inj (htq.symm.trans hnew)
      have hlt := hb.responses tq' hP r hr
      rw [h.t0WallMs] at hage
      have hnewEnd : r.1 ≤ tq' + work'.vetoWindowMs := by omega
      have holdEnd := le_saturatingAdd hage (by omega) hlt.le
      rw [responseWindowEnd_of_some htip, responseWindowEnd_of_none hold]
      exact iff_of_true hnewEnd holdEnd

theorem winner_of_some {r : ResetResponse} (hw : work.winner = some r) :
    work'.winner = some r := by
  obtain ⟨more, hmore, hP⟩ := h.responses
  rw [ResetWork.winner, hmore]
  refine argmin_filter_append_of_lt (fun b hb' => h.contests_eq hb hb') hw fun b hb' => ?_
  have hlt := hb.responses b.1 (hP b hb') r (winner_contests hw).1
  exact Prod.Lex.toLex_lt_toLex.mpr (Or.inl hlt)

theorem winner_of_none (hw : work.winner = none)
    (hlate : ∀ w, P w → work'.responseWindowEnd < w) : work'.winner = none := by
  obtain ⟨more, hmore, hP⟩ := h.responses
  rw [ResetWork.winner, hmore]
  refine argmin_filter_append_of_none (fun b hb' => h.contests_eq hb hb') hw fun b hb' => ?_
  simp [ResetWork.contests, hlate b.1 (hP b hb')]

theorem consumption_of_some {r : ResetResponse} (hc : work.consumption a = some r) :
    work'.consumption a = some r := by
  obtain ⟨more, hmore, hP⟩ := h.responses
  rw [ResetWork.consumption, hmore]
  refine argmin_filter_append_of_lt (fun _ _ => rfl) hc fun b hb' => ?_
  have hlt := hb.responses b.1 (hP b hb') r (List.mem_of_mem_filter (List.argmin_mem hc))
  exact Prod.Lex.toLex_lt_toLex.mpr (Or.inl hlt)

theorem consumption_of_lapsed {cut : ℕ} (hc : work.consumption a = none)
    (hcut : checkedAdd a resetAuthorizedLapseMs = some cut) (hlapsed : cut < t) :
    work'.consumption a = none := by
  obtain ⟨more, hmore, hP⟩ := h.responses
  rw [ResetWork.consumption, hmore]
  refine argmin_filter_append_of_none (fun _ _ => rfl) hc fun b hb' => ?_
  have hlate : ¬b.1 < cut := by
    have := hb.clock b.1 (hP b hb')
    omega
  simp [hcut, hlate]

end Settled

end ResetGrown

/-! ### The verdict on one entry -/

section Verdict

variable {P : ℕ → Prop} {work work' : ResetWork} {t t' a : ℕ} {endorsed : Bool}

def ResetWork.vetoed (work : ResetWork) : Prop := ∃ w rid nv, work.winner = some (w, rid, .veto, nv)

/-- Endorsed at the wall `w` under the quorum of `tq`. -/
def ResetWork.endorsedAt (work : ResetWork) (w tq : ℕ) : Prop :=
  (∃ rid nv, work.winner = some (w, rid, .endorse, nv)) ∧ work.tip = some tq

theorem contest_cases (work : ResetWork) :
    work.vetoed ∨ (∃ w tq, work.endorsedAt w tq) ∨ (¬work.vetoed ∧ work.tip = none) ∨
      (work.winner = none ∧ ∃ tq, work.tip = some tq) := by
  cases hw : work.winner with
  | none =>
    have hveto : ¬work.vetoed := by rintro ⟨w, rid, nv, h⟩; simp [hw] at h
    cases htip : work.tip with
    | none => exact Or.inr (Or.inr (Or.inl ⟨hveto, rfl⟩))
    | some tq => exact Or.inr (Or.inr (Or.inr ⟨rfl, tq, rfl⟩))
  | some r =>
    obtain ⟨w, rid, verdict, nv⟩ := r
    cases verdict with
    | veto => exact Or.inl ⟨w, rid, nv, hw⟩
    | consumed => exact absurd hw winner_ne_consumed
    | endorse =>
      have hveto : ¬work.vetoed := by rintro ⟨w', rid', nv', h⟩; simp [hw] at h
      cases htip : work.tip with
      | none => exact Or.inr (Or.inr (Or.inl ⟨hveto, rfl⟩))
      | some tq => exact Or.inr (Or.inl ⟨w, tq, ⟨rid, nv, hw⟩, htip⟩)

theorem contest_of_vetoed (h : work.vetoed) (t : ℕ) :
    resetContest work t = (.vetoed, none, false) := by
  obtain ⟨w, rid, nv, hw⟩ := h
  rw [resetContest_eq, hw]

theorem contest_of_endorsed {w tq : ℕ} (h : work.endorsedAt w tq) (t : ℕ) :
    resetContest work t = (.authorized, some (max w tq), true) := by
  obtain ⟨⟨rid, nv, hw⟩, htip⟩ := h
  rw [resetContest_eq, hw, htip]

theorem contest_of_no_tip (hveto : ¬work.vetoed) (htip : work.tip = none) (t : ℕ) :
    resetContest work t = (if work.expired t then .expired else .collecting, none, false) := by
  rw [resetContest_eq, htip]
  cases hw : work.winner with
  | none => rfl
  | some r =>
    obtain ⟨w, rid, verdict, nv⟩ := r
    cases verdict with
    | veto => exact absurd ⟨w, rid, nv, hw⟩ hveto
    | consumed => exact absurd hw winner_ne_consumed
    | endorse => rfl

theorem contest_of_unanswered {tq : ℕ} (hw : work.winner = none) (htip : work.tip = some tq)
    (t : ℕ) :
    resetContest work t =
      (work.finality.filter (· < t)).elim (.window, none, false)
        fun fd => (.authorized, some fd, false) := by
  rw [resetContest_eq, hw, htip]
  cases work.finality with
  | none => rfl
  | some fd =>
    rw [Option.filter_some]
    by_cases hlt : fd < t <;> simp [hlt]

theorem contest_authorized (h : resetContest work t = (.authorized, some a, endorsed)) :
    (endorsed = true ∧ ∃ w tq, work.endorsedAt w tq ∧ a = max w tq) ∨
      (endorsed = false ∧ work.winner = none ∧ a < t ∧
        ∃ tq, work.tip = some tq ∧ work.finality = some a) := by
  rcases contest_cases work with hv | ⟨w, tq, he⟩ | ⟨hv, htip⟩ | ⟨hw, tq, htip⟩
  · simp [contest_of_vetoed hv] at h
  · simp only [contest_of_endorsed he, Prod.mk.injEq, true_and, Option.some.injEq] at h
    exact Or.inl ⟨h.2.symm, w, tq, he, h.1.symm⟩
  · rw [contest_of_no_tip hv htip] at h
    split_ifs at h <;> simp at h
  · rw [contest_of_unanswered hw htip] at h
    cases hfd : work.finality.filter (· < t) with
    | none => simp [hfd] at h
    | some fd =>
      simp only [hfd, Option.elim_some, Prod.mk.injEq, true_and, Option.some.injEq] at h
      obtain ⟨hfinal, hlt⟩ := Option.filter_eq_some_iff.mp hfd
      rw [decide_eq_true_eq] at hlt
      obtain ⟨rfl, rfl⟩ := h
      exact Or.inr ⟨rfl, hw, hlt, tq, htip, hfinal⟩

theorem contest_expired (h : (resetContest work t).1 = .expired) :
    ¬work.vetoed ∧ work.tip = none ∧ work.expired t = true := by
  rcases contest_cases work with hv | ⟨w, tq, he⟩ | ⟨hv, htip⟩ | ⟨hw, tq, htip⟩
  · simp [contest_of_vetoed hv] at h
  · simp [contest_of_endorsed he] at h
  · rw [contest_of_no_tip hv htip] at h
    cases hexp : work.expired t with
    | true => exact ⟨hv, htip, rfl⟩
    | false => simp [hexp] at h
  · rw [contest_of_unanswered hw htip] at h
    cases hfd : work.finality.filter (· < t) <;> simp [hfd] at h

theorem contest_phase (work : ResetWork) (t : ℕ) :
    ((resetContest work t).1 = .vetoed ∧ work.vetoed) ∨ (resetContest work t).1 = .expired ∨
      (∃ a endorsed, resetContest work t = (.authorized, some a, endorsed)) ∨
        (resetContest work t).1 = .collecting ∨ (resetContest work t).1 = .window := by
  rcases contest_cases work with hv | ⟨w, tq, he⟩ | ⟨hv, htip⟩ | ⟨hw, tq, htip⟩
  · exact Or.inl ⟨by rw [contest_of_vetoed hv], hv⟩
  · exact Or.inr (Or.inr (Or.inl ⟨_, _, contest_of_endorsed he t⟩))
  · rw [contest_of_no_tip hv htip]
    cases work.expired t <;> simp
  · rw [contest_of_unanswered hw htip]
    cases work.finality.filter (· < t) <;> simp

section Later

variable (h : ResetGrown P work work') (hb : work.SettledBefore P t) (hle : t ≤ t')

include h hb

theorem vetoed_stays (hv : work.vetoed) : work'.vetoed := by
  obtain ⟨w, rid, nv, hw⟩ := hv
  exact ⟨w, rid, nv, h.winner_of_some hb hw⟩

theorem endorsed_stays {w tq : ℕ} (he : work.endorsedAt w tq) : work'.endorsedAt w tq := by
  obtain ⟨⟨rid, nv, hw⟩, htip⟩ := he
  exact ⟨⟨rid, nv, h.winner_of_some hb hw⟩, h.tip_of_some htip⟩

include hle

theorem authorized_stays (ha : resetContest work t = (.authorized, some a, endorsed)) :
    resetContest work' t' = (.authorized, some a, endorsed) := by
  rcases contest_authorized ha with ⟨rfl, w, tq, he, rfl⟩ | ⟨rfl, hw, hlt, tq, htip, hfinal⟩
  · exact contest_of_endorsed (endorsed_stays h hb he) t'
  · have htip' := h.tip_of_some htip
    have hfinal' : work'.finality = some a := by
      rw [← hfinal, ResetWork.finality, ResetWork.finality, htip, htip', h.vetoWindowMs]
    have hadd : checkedAdd (tq + work.vetoWindowMs) resetFinalityMs = some a := by
      rw [← hfinal, ResetWork.finality, htip, Option.map_some, Option.bind_some]
    have hsum := le_of_checkedAdd hadd
    -- what is appended comes after the clock, and that is past the window
    have hw' : work'.winner = none := h.winner_of_none hb hw fun w hP => by
      have hclock := hb.clock w hP
      rw [responseWindowEnd_of_some htip', h.vetoWindowMs]
      omega
    rw [contest_of_unanswered hw' htip', hfinal', Option.filter_some,
      if_pos (decide_eq_true (hlt.trans_le hle)), Option.elim_some]

theorem expired_stays (he : (resetContest work t).1 = .expired)
    (hfits : ∀ tq, work.tQReached = some tq → tq + work.vetoWindowMs < 2 ^ 64) :
    (resetContest work' t').1 = .expired := by
  obtain ⟨hv, htip, hexp⟩ := contest_expired he
  -- every new wall, a new tip included, comes after the collecting window
  have hlate : ∀ w, P w → work.t0WallMs + adminProposalExpiryMs < w := by
    intro w hP
    cases hreached : work.tQReached with
    | none =>
      rw [expired_of_unreached hreached, decide_eq_true_eq] at hexp
      have := hb.clock w hP
      omega
    | some tq =>
      have hlt := hb.reached w hP tq hreached
      have hage : ¬tq - work.t0WallMs ≤ adminProposalExpiryMs := fun hage => by
        simp [tip_eq_some.mpr ⟨hreached, hage, hfits tq hreached⟩] at htip
      omega
  have htip' : work'.tip = none := by
    rcases h.reached with hsame | ⟨-, tq, hP, hnew⟩
    · rw [h.tip_of_reached_eq hsame, htip]
    · refine Option.eq_none_iff_forall_ne_some.mpr fun tq' htq => ?_
      obtain ⟨htq, hage, -⟩ := tip_eq_some.mp htq
      obtain rfl := Option.some.inj (htq.symm.trans hnew)
      rw [h.t0WallMs] at hage
      have := hlate tq' hP
      omega
  have hexp' : work'.expired t' = true := by
    cases hreached : work'.tQReached with
    | some tq => rw [expired_of_tipped hreached, htip']; rfl
    | none =>
      have hnone : work.tQReached = none := by
        rcases h.reached with hsame | ⟨hnone, -⟩
        · rw [← hsame, hreached]
        · exact hnone
      rw [expired_of_unreached hnone, decide_eq_true_eq] at hexp
      rw [expired_of_unreached hreached, h.t0WallMs, decide_eq_true_eq]
      omega
  have hv' : ¬work'.vetoed := by
    rintro ⟨w, rid, nv, hw'⟩
    cases hw : work.winner with
    | some r =>
      rw [h.winner_of_some hb hw] at hw'
      exact hv ⟨w, rid, nv, hw.trans hw'⟩
    | none =>
      rw [h.winner_of_none hb hw fun u hP => ?_] at hw'
      · cases hw'
      · rw [responseWindowEnd_of_none htip', h.t0WallMs]
        exact (min_le_left _ _).trans_lt (hlate u hP)
  rw [contest_of_no_tip hv' htip', hexp', if_pos rfl]

end Later

/-! ### The outcome with consumption and lapse -/

def lapsed (a t : ℕ) : Bool :=
  (checkedAdd a resetAuthorizedLapseMs).any fun cut => decide (t > cut)

theorem lapsed_iff :
    lapsed a t = true ↔ ∃ cut, checkedAdd a resetAuthorizedLapseMs = some cut ∧ cut < t := by
  unfold lapsed
  cases checkedAdd a resetAuthorizedLapseMs <;> simp

theorem outcome_of_authorized (h : resetContest work t = (.authorized, some a, endorsed)) :
    resetOutcome t work =
      (work.consumption a).elim
        ⟨if lapsed a t then .lapsed else .authorized, (resetDeadline work t).1, some a, endorsed,
          none, none⟩
        fun r => ⟨.consumed, (resetDeadline work t).1, some a, endorsed, r.2.2.2, some r.1⟩ := by
  have hconsumption : (work.responses.filter fun r =>
      decide (r.2.2.1 = .consumed) && r.2.2.2.isSome && decide (a ≤ r.1) &&
        (checkedAdd a resetAuthorizedLapseMs).all (fun cut => decide (r.1 < cut))).argmin
          (fun r => (toLex (r.1, r.2.1) : ℕ ×ₗ ℕ)) = work.consumption a := rfl
  have hlapsed : ((checkedAdd a resetAuthorizedLapseMs).any fun cut => decide (t > cut)) =
      lapsed a t := rfl
  simp only [resetOutcome, h, hconsumption, hlapsed]
  generalize work.consumption a = consumption, lapsed a t = late
  cases consumption with
  | some r => rfl
  | none => cases late <;> rfl

theorem outcome_of_not_authorized (h : (resetContest work t).1 ≠ .authorized) :
    resetOutcome t work = ⟨(resetContest work t).1, (resetDeadline work t).1,
      (resetContest work t).2.1, (resetContest work t).2.2, none, none⟩ := by
  unfold resetOutcome
  generalize resetContest work t = contest at h ⊢
  obtain ⟨phase, a, endorsed⟩ := contest
  cases phase with
  | authorized => exact absurd rfl h
  | _ => rfl

end Verdict

def ResetPhase.settled : ResetPhase → Bool
  | .vetoed | .expired | .consumed | .lapsed => true
  | _ => false

/-- The later outcome `o'` of an entry keeps what the outcome `o` has settled. -/
structure ResetOutcome.Precedes (o o' : ResetOutcome) : Prop where
  settled : o.phase.settled = true → o'.phase = o.phase ∧ o'.consumedNewVk = o.consumedNewVk
  authorized : o.phase = .authorized →
    (o'.phase = .authorized ∨ o'.phase = .consumed ∨ o'.phase = .lapsed) ∧
      o'.authorizedAtMs = o.authorizedAtMs

theorem outcome_precedes {P : ℕ → Prop} {work work' : ResetWork} {t t' : ℕ}
    (h : ResetGrown P work work') (hb : work.SettledBefore P t) (hle : t ≤ t')
    (hfits : (resetOutcome t work).phase = .expired → ∀ tq, work.tQReached = some tq →
      tq + work.vetoWindowMs < 2 ^ 64) :
    (resetOutcome t work).Precedes (resetOutcome t' work') := by
  rcases contest_phase work t with ⟨hphase, hv⟩ | hphase | ⟨a, endorsed, ha⟩ | hphase | hphase
  · have hv' := contest_of_vetoed (vetoed_stays h hb hv) t'
    rw [outcome_of_not_authorized (by simp [hphase]), outcome_of_not_authorized (by simp [hv'])]
    exact ⟨fun _ => ⟨by rw [hv', hphase], rfl⟩, fun h => by simp [hphase] at h⟩
  · have hne : (resetContest work t).1 ≠ .authorized := by simp [hphase]
    have ho := outcome_of_not_authorized hne
    have hphase' := expired_stays h hb hle hphase (hfits (by rw [ho]; exact hphase))
    rw [ho, outcome_of_not_authorized (by simp [hphase'])]
    exact ⟨fun _ => ⟨by rw [hphase', hphase], rfl⟩, fun h => by simp [hphase] at h⟩
  · have ha' := authorized_stays h hb hle ha
    rw [outcome_of_authorized ha, outcome_of_authorized ha']
    cases hc : work.consumption a with
    | some r =>
      rw [h.consumption_of_some hb hc, Option.elim_some, Option.elim_some]
      constructor <;> simp
    | none =>
      rw [Option.elim_none]
      cases hl : lapsed a t with
      | true =>
        obtain ⟨cut, hcut, hlt⟩ := lapsed_iff.mp hl
        have hl' := lapsed_iff.mpr ⟨cut, hcut, hlt.trans_le hle⟩
        rw [h.consumption_of_lapsed hb hc hcut hlt, Option.elim_none, hl']
        constructor <;> simp
      | false =>
        cases work'.consumption a with
        | some r => rw [Option.elim_some]; constructor <;> simp [ResetPhase.settled]
        | none =>
          rw [Option.elim_none]
          cases lapsed a t' <;> constructor <;> simp [ResetPhase.settled]
  all_goals
    rw [outcome_of_not_authorized (by simp [hphase])]
    exact ⟨fun h => by simp [hphase, ResetPhase.settled] at h, fun h => by simp [hphase] at h⟩

/-- An authorization that nobody endorsed has waited out the window and the finality delay,
and no veto fell into the window. -/
theorem unendorsed_waited {work : ResetWork} {t : ℕ}
    (hreached : ∀ tq, work.tQReached = some tq → work.t0WallMs ≤ tq)
    (hphase : (resetOutcome t work).phase = .authorized)
    (hend : (resetOutcome t work).endorsed = false) :
    work.t0WallMs + work.vetoWindowMs + resetFinalityMs < t ∧
      ∃ d, (resetOutcome t work).deadlineMs = some d ∧
        ∀ r ∈ work.responses, r.2.2.1 = .veto → ¬(work.t0WallMs ≤ r.1 ∧ r.1 ≤ d) := by
  rcases contest_phase work t with ⟨hp, -⟩ | hp | ⟨a, endorsed, ha⟩ | hp | hp
  case inr.inr.inl =>
    have hdeadline : (resetOutcome t work).deadlineMs = (resetDeadline work t).1 := by
      rw [outcome_of_authorized ha]
      cases work.consumption a <;> rfl
    have hendorsed : endorsed = false := by
      rw [← hend, outcome_of_authorized ha]
      cases work.consumption a <;> rfl
    rcases contest_authorized ha with ⟨rfl, -⟩ | ⟨-, hw, hlt, tq, htip, hfinal⟩
    · cases hendorsed
    · have hadd : checkedAdd (tq + work.vetoWindowMs) resetFinalityMs = some a := by
        rw [← hfinal, ResetWork.finality, htip, Option.map_some, Option.bind_some]
      have hsum := le_of_checkedAdd hadd
      have hle := hreached tq (tip_eq_some.mp htip).1
      refine ⟨by omega, tq + work.vetoWindowMs, ?_, fun r hr hveto hin => ?_⟩
      · rw [hdeadline, resetDeadline_eq, htip, Option.map_some]
      · have hout := not_contests_of_no_winner hw hr
        simp [ResetWork.contests, hveto, hin.1, responseWindowEnd_of_some htip, hin.2] at hout
  all_goals
    rw [outcome_of_not_authorized (by simp [hp])] at hphase
    simp [hp] at hphase

end Harmony.Membership
