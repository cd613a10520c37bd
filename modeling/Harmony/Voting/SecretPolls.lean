import Harmony.Voting.Drops
import Harmony.Voting.PollRuns
import Harmony.Voting.Warrants

/-! What becomes of a secret Tier-3 poll. Both gates of the engine ask every ballot for a score
of each candidate, which the fold of a secret poll refuses. -/

namespace Harmony.Voting

open Harmony.Lib
open Harmony.Membership (OwnerAddr SpaceId EventId Digest Bytes Hlc)
open Tier3PollState (Handled stepped decode ratificationOrdering_ne_nil)

variable {cx : Codec} {cv : Curve} {s : Tier3PollState} {ev : SignedVotingEvent}

/-! ### The gate -/

/-- A ballot gives scores. -/
def Scored (cx : Codec) (ev : SignedVotingEvent) : Prop :=
  ∀ payload, cx.ratificationBallot ev.payload = .ok payload → payload.scores.isSome = true

theorem validateRatificationBallot_scored {payload : RatificationBallotPayload} {n : ℕ}
    (h : validateRatificationBallot payload n = .ok ()) (hn : n ≠ 0) :
    payload.scores.isSome = true := by
  cases hscores : payload.scores with
  | some scores => rfl
  | none =>
    simp [validateRatificationBallot, hscores, Ne.symm hn] at h

theorem verifyRatificationBallot_scored (h : verifyRatificationBallot cx ev s = .ok ()) :
    Scored cx ev := by
  intro payload hpayload
  unfold verifyRatificationBallot at h
  split_ifs at h
  rw [hpayload] at h
  dsimp only at h
  split at h
  · simp at h
  · rename_i advancers hadvancers
    obtain ⟨ordered, hordered, hne⟩ := ratificationOrdering_ne_nil cx s
    obtain rfl := Option.some.inj (hordered.symm.trans hadvancers)
    split at h
    · simp at h
    · rename_i hvalid
      exact validateRatificationBallot_scored hvalid (by simpa using hne)

/-! ### The fold -/

/-- Whatever the handler returns, it left the shares alone. -/
def KeepsShares (s : Tier3PollState) (handled : Handled) : Prop :=
  ∀ s' advance, handled = .ok (s', advance) → s'.tallyShares = s.tallyShares

theorem keepsShares_pure {s' : Tier3PollState} (h : s'.tallyShares = s.tallyShares)
    (advance : Bool) : KeepsShares s (pure (s', advance)) := by
  intro s'' advance' hr
  cases hr
  exact h

theorem KeepsShares.decode_bind {α : Type} {x : Except String α} {f : α → Handled}
    (h : ∀ payload, KeepsShares s (f payload)) : KeepsShares s (decode x >>= f) := by
  cases x with
  | ok payload => exact h payload
  | error reason => exact fun s' advance hr => by cases hr

theorem KeepsShares.ite {p : Prop} [Decidable p] {a b : Handled} (ha : KeepsShares s a)
    (hb : KeepsShares s b) : KeepsShares s (if p then a else b) := by
  split
  · exact ha
  · exact hb

theorem tallyShareOk_of_no_ballots (h : s.ratificationBallots = []) {payload : TallySharePayload}
    : s.tallyShareOk cx cv ev payload = false := by
  have hverify : ∀ key entries n, s.sharesVerify cv key entries n = false := by
    intro key entries n
    simp only [Tier3PollState.sharesVerify, h, aggregateSeBallots, List.isEmpty_nil, if_true]
    split <;> simp_all
  simp only [Tier3PollState.tallyShareOk, hverify]
  cases s.committeeOracle.committeeAtEpoch payload.committeeEpoch with
  | none => simp
  | some cs => cases cs.verifyingShares[ev.actor]? <;> simp

theorem keepsShares_dispatch (h : s.ratificationBallots = []) :
    KeepsShares s (s.dispatch cx cv ev) := by
  have hdrop : KeepsShares s (pure (s, false)) := keepsShares_pure rfl false
  unfold Tier3PollState.dispatch
  split
  · exact .decode_bind fun _ => keepsShares_pure rfl true
  · exact .decode_bind fun _ => .ite hdrop (keepsShares_pure rfl true)
  · exact .decode_bind fun _ => .ite hdrop (.ite hdrop (.ite hdrop (keepsShares_pure rfl true)))
  · refine .decode_bind fun payload => .ite hdrop ?_
    cases s.deliberation.statements[payload.statementEventHash]? with
    | none => exact hdrop
    | some target =>
      refine .ite hdrop ?_
      cases BridgingVoteCode.fromU8 payload.vote with
      | none => exact hdrop
      | some code => exact .ite (keepsShares_pure rfl true) hdrop
  · exact .decode_bind fun _ => .ite hdrop (keepsShares_pure rfl true)
  · exact .decode_bind fun _ => .ite (keepsShares_pure rfl true) hdrop
  · exact .decode_bind fun _ => keepsShares_pure rfl true
  · exact .decode_bind fun _ => .ite hdrop (.ite hdrop (keepsShares_pure rfl _))
  · refine .decode_bind fun payload => ?_
    simp only [tallyShareOk_of_no_ballots h, Bool.false_and]
    exact hdrop
  · exact keepsShares_pure rfl true
  · exact .decode_bind fun _ => keepsShares_pure rfl true
  · intro s' advance hr
    cases hr

theorem applyEvent_tallyShares (h : s.ratificationBallots = []) :
    (s.applyEvent cx cv ev).1.tallyShares = s.tallyShares := by
  unfold Tier3PollState.applyEvent
  split
  · rfl
  · split
    · rfl
    · rename_i s' advance hd
      exact keepsShares_dispatch h s' advance hd

/-- A secret poll has neither ballots nor shares. -/
def Uncounted (s : Tier3PollState) : Prop :=
  s.meta.config.privacyMode = "se" → s.ratificationBallots = [] ∧ s.tallyShares = ∅

theorem ballotOf_scored (hmode : s.meta.config.privacyMode = "se")
    (hscored : ev.kind = .ratificationBallot → Scored cx ev) : s.ballotOf cx cv ev = none := by
  by_cases hk : ev.kind = .ratificationBallot
  swap
  · exact Tier3PollState.ballotOf_of_ne hk
  have hwell : s.wellFormedBallot cx cv ev = none := by
    unfold Tier3PollState.wellFormedBallot
    split_ifs
    · cases hpayload : cx.ratificationBallot ev.payload with
      | error reason => rfl
      | ok payload =>
        have hsome : payload.scores.isSome = true := hscored hk payload hpayload
        simp [Except.toOption, Tier3PollState.ballotOk, Tier3PollState.ballotShapeOk, hmode,
          Option.isNone_iff_eq_none, Option.isSome_iff_ne_none.mp hsome]
    · rfl
  simp [Tier3PollState.ballotOf, hwell]

theorem Uncounted.applyEvent (h : Uncounted s)
    (hscored : ev.kind = .ratificationBallot → Scored cx ev) :
    Uncounted (s.applyEvent cx cv ev).1 := by
  intro hmode
  rw [(applyEvent_sameFrame cx cv s ev).meta] at hmode
  obtain ⟨hballots, hshares⟩ := h hmode
  refine ⟨?_, (applyEvent_tallyShares hballots).trans hshares⟩
  rw [(stepped cx cv s ev).ratificationBallots, hballots, ballotOf_scored hmode hscored]
  rfl

theorem Uncounted.expectedResult (h : Uncounted s) (hmode : s.meta.config.privacyMode = "se")
    (result : StarResult) : expectedResultFromState cx cv s ≠ .ok result := by
  obtain ⟨-, hshares⟩ := h hmode
  have hkeys : (s.tallyShares.keys.map fun k => (ofLex k).2) = [] := by
    rw [hshares]
    simp
  unfold expectedResultFromState
  split
  · simp
  · simp only [recomputeExpectedResult, hmode, if_true, recoverSecretTally, hkeys]
    split_ifs <;> simp

/-! ### Runs -/

section Runs

open VotingLogEngine (run run_induct run_sameFrame recorded_tier tier3Kind)

variable {P : VotingLogEngineParams} {known : Digest → ℕ → Digest → Prop} {pid : PollId}
  {p : PollState} {t3 : Tier3PollState}

theorem recorded_scored {steps : List EngineStep} (hsound : SoundRun P known steps)
    (hp : (run P steps).node.log.polls[pid]? = some p) {e : SignedVotingEvent} (he : e ∈ p.events)
    (hk : e.kind = .ratificationBallot) : Scored P.cx e := by
  have htier : e.tier = .sortition := recorded_tier steps hp he (by simp [hk, tier3Kind])
  obtain ⟨_, _, t3, -, -, hwarrant⟩ :=
    ((run_vetted steps hsound fun _ _ => trivial).recorded pid p hp e he htier
      (gated_of_ne_close (by simp [hk, gatedKind]) (by simp [hk]))).of_run
  exact verifyRatificationBallot_scored (hwarrant.balloted hk)

theorem FreshPoll.uncounted {watermark : Option VoidedInfo} (h : FreshPoll watermark t3) :
    Uncounted t3 := by
  intro _
  rw [h.state]
  exact ⟨rfl, rfl⟩

theorem run_uncounted (steps : List EngineStep) (hsound : SoundRun P known steps)
    (hp : (run P steps).node.log.polls[pid]? = some p) (hstate : p.tierState = .tier3 t3) :
    Uncounted t3 := by
  refine run_induct (P := P) (Q := fun steps _ _ t3 => SoundRun P known steps → Uncounted t3)
    ?_ steps pid p t3 hp hstate hsound
  intro steps s ih pid p' t3' hp' hstate' horigin hsound
  cases horigin with
  | created hs hnone hfresh => exact hfresh.uncounted
  | kept hp hstate haudited hkept =>
    obtain ⟨voided, oracle, rfl⟩ := hkept.eq
    have hold := ih _ _ _ hp hstate hsound.of_append
    exact hold
  | applied hs hp hstate htier happly hevents heffect =>
    refine heffect.induct (ih _ _ _ hp hstate hsound.of_append) (fun t _ _ => ⟨rfl, rfl⟩) ?_
    intro e he t ht
    exact ht.applyEvent fun hk => recorded_scored hsound hp' (hevents ▸ he) hk

theorem recorded_result {steps : List EngineStep} (hsound : SoundRun P known steps)
    (hp : (run P steps).node.log.polls[pid]? = some p) (hstate : p.tierState = .tier3 t3)
    (hmode : t3.meta.config.privacyMode = "se") {e : SignedVotingEvent} (he : e ∈ p.events)
    (htier : e.tier = .sortition) : e.kind ≠ .pollResult := by
  intro hk
  obtain ⟨pre, post, t, rfl, hpoll, hwarrant⟩ :=
    ((run_vetted steps hsound fun _ _ => trivial).recorded pid p hp e he htier
      (gated_of_ne_close (by simp [hk, gatedKind]) (by simp [hk]))).of_run
  obtain ⟨result, hexpected⟩ := hwarrant.tallied hk
  obtain ⟨q, hq, hqstate⟩ := tier3Of_eq_some hpoll
  have hframe : SameFrame t t3 := run_sameFrame pre post hq hqstate hp hstate
  refine (run_uncounted pre hsound.of_append hq hqstate).expectedResult ?_ _ hexpected
  rwa [← hframe.meta]

def Unresolved (s : Tier3PollState) : Prop := s.result = none ∧ s.stage ≠ .finalized

theorem Unresolved.applyEvent (h : Unresolved s) (hk : ev.kind ≠ .pollResult) :
    Unresolved (s.applyEvent cx cv ev).1 := by
  have hstep := stepped cx cv s ev
  constructor
  · rw [hstep.result, Tier3PollState.resultOf_of_ne hk, h.1]
    rfl
  · rw [hstep.stage, Tier3PollState.resultOf_of_ne hk, Option.isSome_none,
      if_neg Bool.false_ne_true]
    split_ifs
    · simp
    · exact h.2

/-- Only a recorded PollResult finalizes a poll, and none is ever forgotten. -/
theorem run_unresolved (steps : List EngineStep)
    (hp : (run P steps).node.log.polls[pid]? = some p) (hstate : p.tierState = .tier3 t3)
    (hnone : ∀ e ∈ p.events, e.kind ≠ .pollResult) : Unresolved t3 := by
  refine run_induct (P := P)
    (Q := fun _ _ p t3 => (∀ e ∈ p.events, e.kind ≠ .pollResult) → Unresolved t3)
    ?_ steps pid p t3 hp hstate hnone
  intro steps s ih pid p' t3' hp' hstate' horigin hnone
  cases horigin with
  | created hs hp hfresh =>
    rw [hfresh.state]
    exact ⟨rfl, by simp [Tier3PollState.newFromCreate]⟩
  | kept hp hstate haudited hkept =>
    obtain ⟨voided, oracle, rfl⟩ := hkept.eq
    have hold := ih _ _ _ hp hstate fun e he hk =>
      hnone e (haudited e he (by simp [VotingLog.auditKind, hk])) hk
    exact hold
  | applied hs hp hstate htier happly hevents heffect =>
    rw [hevents] at hnone
    refine heffect.induct (ih _ _ _ hp hstate fun e he => hnone e (List.mem_append_left _ he))
      (fun t _ => ⟨rfl, by simp [Tier3PollState.reset, Tier3PollState.newFromCreate]⟩) ?_
    exact fun e he t ht => ht.applyEvent (hnone e he)

end Runs

/-- Whatever its members do, a secret poll counts no ballot and no share, and unless a result of
another tier is recorded it is never finalized. -/
theorem secret_poll_uncounted (P : VotingLogEngineParams) (known : Digest → ℕ → Digest → Prop)
    (steps : List EngineStep) (hsound : SoundRun P known steps) {pid : PollId} {p : PollState}
    {t3 : Tier3PollState} (hp : (VotingLogEngine.run P steps).node.log.polls[pid]? = some p)
    (hstate : p.tierState = .tier3 t3) (hmode : t3.meta.config.privacyMode = "se") :
    t3.ratificationBallots = [] ∧ t3.tallyShares = ∅ ∧
      ((∀ e ∈ p.events, e.kind = .pollResult → e.tier = .sortition) →
        t3.result = none ∧ t3.stage ≠ .finalized) := by
  obtain ⟨hballots, hshares⟩ := run_uncounted steps hsound hp hstate hmode
  refine ⟨hballots, hshares, fun htiers => run_unresolved steps hp hstate fun e he hk => ?_⟩
  exact recorded_result hsound hp hstate hmode he (htiers e he hk) hk

/-- The poll of the sample after its draw. -/
theorem secret_poll_uncounted_sample : ∃ p t3, (VotingLogEngine.run secretParams
    secretSteps).node.log.polls[secretPoll]? = some p ∧ p.tierState = .tier3 t3 ∧
      t3.ratificationBallots = [] ∧ t3.tallyShares = ∅ ∧ t3.result = none ∧
      t3.stage ≠ .finalized := by
  obtain ⟨p, hp, hevents⟩ := secretSteps_events
  have hmode : ((VotingLogEngine.run secretParams secretSteps).node.log.tier3Of secretPoll).map
      (·.meta.config.privacyMode) = some "se" := by decide +kernel
  obtain ⟨t3, hpoll, hmode⟩ := Option.map_eq_some_iff.mp hmode
  obtain ⟨q, hq, hstate⟩ := tier3Of_eq_some hpoll
  rw [hp] at hq
  obtain rfl := Option.some.inj hq
  obtain ⟨hballots, hshares, hopen⟩ :=
    secret_poll_uncounted secretParams _ secretSteps secretSteps_sound hp hstate hmode
  have hresult := hopen (by simp [hevents, secretCreate, secretSelection, Sample.event])
  exact ⟨p, t3, hp, hstate, hballots, hshares, hresult⟩

end Harmony.Voting
