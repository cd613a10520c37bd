import Harmony.Voting.IngestSteps
import Harmony.Voting.Sample

/-! Every Tier-3 event that an engine records was accepted by the verifier of its kind on a
state its poll had on this node, however the tasks interleave and whatever the memo held. -/

namespace Harmony.Voting

open Harmony.Lib
open Harmony.Membership (OwnerAddr SpaceId EventId Digest Bytes Hlc)

def gatedKind (kind : PollEventKindCode) : Bool :=
  kind ∈ [.sortitionSelection, .sortitionFailed, .pollClose, .pollResult, .miniPublicDecline,
    .draftCandidate, .draftApproval, .ratificationBallot]

def EngineStep.reading : EngineStep → Option (Option ℕ)
  | .advance _ _ receiverNowMs => some receiverNowMs
  | .mintClose _ _ receiverNowMs => some receiverNowMs
  | _ => none

def readings (steps : List EngineStep) : List (Option ℕ) := steps.filterMap EngineStep.reading

section Vouched

variable (P : VotingLogEngineParams) (known : Digest → ℕ → Digest → Prop)
  (clock : Option ℕ → Prop)

/-- Every output the oracle has for the community is known. -/
def Tells (oracle : BeaconOracle) : Prop :=
  ∀ seed epoch vrfOutput, oracle.vrfOutputFor P.communityId seed epoch = some vrfOutput →
    known seed epoch vrfOutput

/-- A close is only checked where the clock can be read. -/
def Gated (kind : PollEventKindCode) : Prop :=
  gatedKind kind = true ∧ (kind = .pollClose → ∀ r, clock r → r.isSome = true)

/-- The verifier of the kind accepts the event. -/
def Verified (t3 : Tier3PollState) (event : SignedVotingEvent) : Prop :=
  match event.kind with
  | .sortitionSelection => ∃ oracle, Tells P known oracle ∧
      verifySs P.cx event t3 P.rng oracle P.communityId = some (.ok ())
  | .sortitionFailed => verifySf event t3 = .ok ()
  | .pollClose => ∃ now, clock (some now) ∧ verifyCl event t3 now = .ok ()
  | .pollResult => verifySr P.cx P.cv event t3 = .ok ()
  | .miniPublicDecline => verifySd event t3 = .ok ()
  | .draftCandidate => verifySd event t3 = .ok ()
  | .draftApproval => verifySd event t3 = .ok () ∧ verifyDaCandidateExists P.cx event t3 = .ok ()
  | .ratificationBallot => verifyRatificationBallot P.cx event t3 = .ok ()
  | _ => True

/-- The node minted the event itself, by a trigger that does not ask the verifier. -/
def Triggered (t3 : Tier3PollState) (event : SignedVotingEvent) : Prop :=
  event.actor = P.selfOwner ∧
    match event.kind with
    | .sortitionFailed => t3.failsFor P.selfOwner = true
    | .pollClose => ∃ receiverNowMs, clock receiverNowMs ∧ t3.closesAt receiverNowMs = true
    | .pollResult => t3.meta.config.privacyMode = "se" ∧
        ∃ payload, P.cx.tier3PollResult event.payload = .ok payload ∧
          t3.resultToMint P.cx P.cv = some payload.result
    | _ => False

def Warrant (t3 : Tier3PollState) (event : SignedVotingEvent) : Prop :=
  Verified P known clock t3 event ∨ Triggered P clock t3 event

/-- One of the logs held the poll in a state that warrants the event. -/
def Vouched (logs : List VotingLog) (pid : PollId) (event : SignedVotingEvent) : Prop :=
  P.cx.pollIdRef event.payload = some pid ∧
    ∃ log ∈ logs, ∃ t3, log.tier3Of pid = some t3 ∧ Warrant P known clock t3 event

/-- An event that has passed its gate. -/
def Cleared (logs : List VotingLog) (event : SignedVotingEvent) : Prop :=
  event.tier = .sortition → Gated clock event.kind → ∃ pid, Vouched P known clock logs pid event

/-- One of the logs held the poll, closed as the key says, in a state whose tally this is. -/
def Remembered (logs : List VotingLog) (key : PollId ×ₗ Digest) (result : StarResult) : Prop :=
  ∃ log ∈ logs, ∃ t3, log.tier3Of (ofLex key).1 = some t3 ∧
    t3.closeEventHash = some (ofLex key).2 ∧ expectedResultFromState P.cx P.cv t3 = .ok result

/-- A PollResult and what it claims. -/
def Claims (event : SignedVotingEvent) (pid : PollId) (claimed : StarResult) : Prop :=
  event.kind = .pollResult ∧ P.cx.pollIdRef event.payload = some pid ∧
    decodePollResultClaim P.cx event = .ok claimed

def TaskVetted (logs : List VotingLog) : IngestTask → Prop
  | .verified _ _ => True
  | .copied event _ t3 key claimed => Claims P event (ofLex key).1 claimed ∧
      ∃ log ∈ logs, log.tier3Of (ofLex key).1 = some t3 ∧ t3.closeEventHash = some (ofLex key).2
  | .recomputed event _ key expected claimed =>
    Claims P event (ofLex key).1 claimed ∧ Remembered P logs key expected
  | .eligible event _ => Cleared P known clock logs event
  | .applied _ => True
  | .accepted event _ => Cleared P known clock logs event
  | .announced event _ => Cleared P known clock logs event

structure Vetted (logs : List VotingLog) (engine : VotingLogEngine) : Prop where
  tasks : ∀ task ∈ engine.tasks, TaskVetted P known clock logs task
  memo : ∀ key result, engine.tracker.verifySrMemo[key]? = some result →
    Remembered P logs key result
  recorded : ∀ pid p, engine.node.log.polls[pid]? = some p → ∀ event ∈ p.events,
    event.tier = .sortition → Gated clock event.kind → Vouched P known clock logs pid event

/-- Oracles and beacons tell what is known, and what the engine writes decodes to what it
meant. -/
def SoundStep (engine : VotingLogEngine) : EngineStep → Prop
  | .advance _ beaconOracle _ => ∀ oracle ∈ beaconOracle, Tells P known oracle
  | .beacon messageHash vrfOutput _ =>
    (∀ seed epoch, deriveVrfSeed P.cx seed epoch = messageHash → known seed epoch vrfOutput) ∧
      ∀ pid t3 selection, engine.node.log.tier3Of pid = some t3 →
        t3.drawSeats P.rng vrfOutput = some selection →
        P.cx.pollIdRef (P.encoder.sortitionSelection pid selection) = some pid ∧
        P.cx.sortitionSelection (P.encoder.sortitionSelection pid selection) =
          .ok ⟨pid, selection.primary, selection.backup⟩
  | .mintFailed pid _ => P.cx.pollIdRef (P.encoder.pollRef pid) = some pid
  | .mintClose pid _ _ => P.cx.pollIdRef (P.encoder.pollRef pid) = some pid
  | .mintResult pid => ∀ t3 result, engine.node.log.tier3Of pid = some t3 →
      t3.resultToMint P.cx P.cv = some result →
      P.cx.pollIdRef (P.encoder.pollResult pid result) = some pid ∧
      P.cx.tier3PollResult (P.encoder.pollResult pid result) = .ok ⟨pid, result⟩
  | _ => True

/-- Every step of a run is sound where it is taken. -/
def SoundRun (steps : List EngineStep) : Prop :=
  ∀ ns ∈ trace (VotingLogEngine.step P) {} steps, SoundStep P known ns.1 ns.2

end Vouched

section Gates

variable {P : VotingLogEngineParams} {known : Digest → ℕ → Digest → Prop}
  {clock : Option ℕ → Prop} {log : VotingLog}
  {logs logs' : List VotingLog} {event : SignedVotingEvent} {pid : PollId}

theorem Vouched.mono (hlogs : ∀ log ∈ logs, log ∈ logs') (h : Vouched P known clock logs pid event) :
    Vouched P known clock logs' pid event := by
  obtain ⟨hpid, log, hlog, hwarrant⟩ := h
  exact ⟨hpid, log, hlogs log hlog, hwarrant⟩

theorem Cleared.mono (hlogs : ∀ log ∈ logs, log ∈ logs') (h : Cleared P known clock logs event) :
    Cleared P known clock logs' event := by
  intro htier hkind
  obtain ⟨pid, hpid⟩ := h htier hkind
  exact ⟨pid, hpid.mono hlogs⟩

theorem Remembered.mono {key : PollId ×ₗ Digest} {result : StarResult}
    (hlogs : ∀ log ∈ logs, log ∈ logs') (h : Remembered P logs key result) :
    Remembered P logs' key result := by
  obtain ⟨log, hlog, hstate⟩ := h
  exact ⟨log, hlogs log hlog, hstate⟩

theorem TaskVetted.mono {task : IngestTask} (hlogs : ∀ log ∈ logs, log ∈ logs')
    (h : TaskVetted P known clock logs task) : TaskVetted P known clock logs' task := by
  cases task with
  | verified event snapshot => trivial
  | copied event snapshot t3 key claimed =>
    obtain ⟨hclaims, log, hlog, hstate⟩ := h
    exact ⟨hclaims, log, hlogs log hlog, hstate⟩
  | recomputed event snapshot key expected claimed => exact ⟨h.1, h.2.mono hlogs⟩
  | eligible event snapshot => exact Cleared.mono hlogs h
  | applied event => trivial
  | accepted event snapshot => exact Cleared.mono hlogs h
  | announced event snapshot => exact Cleared.mono hlogs h

theorem withTier3_eq_ok {kind : String} {f : Tier3PollState → Except VerifyError Unit}
    (h : log.withTier3 pid kind f = .ok ()) : ∃ t3, log.tier3Of pid = some t3 ∧ f t3 = .ok () := by
  unfold VotingLog.withTier3 at h
  split at h
  · cases h
  · rename_i t3 hpoll
    refine ⟨t3, hpoll, ?_⟩
    cases hf : f t3 with
    | ok u => rfl
    | error err => simp [hf, Except.mapError] at h

theorem withNamedTier3_eq_ok {cx : Codec} {kind : String}
    {f : Tier3PollState → Except VerifyError Unit}
    (h : log.withNamedTier3 cx event kind f = .ok ()) :
    ∃ pid t3, cx.pollIdRef event.payload = some pid ∧ log.tier3Of pid = some t3 ∧ f t3 = .ok () := by
  unfold VotingLog.withNamedTier3 at h
  split at h
  · cases h
  · rename_i pid hpid
    obtain ⟨t3, hpoll, hf⟩ := withTier3_eq_ok h
    exact ⟨pid, t3, hpid, hpoll, hf⟩

theorem vouched_of_named {kind : String} {f : Tier3PollState → Except VerifyError Unit}
    (h : log.withNamedTier3 P.cx event kind f = .ok ())
    (hf : ∀ t3, f t3 = .ok () → Verified P known clock t3 event) :
    ∃ pid, Vouched P known clock [log] pid event := by
  obtain ⟨pid, t3, hpid, hpoll, hok⟩ := withNamedTier3_eq_ok h
  exact ⟨pid, hpid, log, List.mem_singleton_self log, t3, hpoll, .inl (hf t3 hok)⟩

theorem publishGate_vouched (h : log.publishGate P.cx event = .ok ())
    (hkind : gatedKind event.kind = true) (hown : engineKind event.kind = false) :
    ∃ pid, Vouched P known clock [log] pid event := by
  cases hk : event.kind with
  | miniPublicDecline =>
    rw [VotingLog.publishGate, hk] at h
    exact vouched_of_named h fun t3 ht3 => by simpa only [Verified, hk] using ht3
  | draftCandidate =>
    rw [VotingLog.publishGate, hk] at h
    exact vouched_of_named h fun t3 ht3 => by simpa only [Verified, hk] using ht3
  | draftApproval =>
    rw [VotingLog.publishGate, hk] at h
    refine vouched_of_named h fun t3 ht3 => ?_
    obtain ⟨u, hseat, hcandidate⟩ := bind_eq_ok.mp ht3
    simp only [Verified, hk]
    exact ⟨hseat, hcandidate⟩
  | ratificationBallot =>
    rw [VotingLog.publishGate, hk] at h
    exact vouched_of_named h fun t3 ht3 => by simpa only [Verified, hk] using ht3
  | _ => simp [gatedKind, engineKind, hk] at hkind hown

section Inbound

variable {beaconOracle : Option BeaconOracle} {receiverNowMs : Option ℕ}

theorem closeVerdict_vouched (hclock : clock receiverNowMs) (hkind : Gated clock event.kind)
    (h : log.closeVerdict P.cx event receiverNowMs = .decided (.ok ()))
    (hk : event.kind = .pollClose) : ∃ pid, Vouched P known clock [log] pid event := by
  obtain ⟨now, rfl⟩ := Option.isSome_iff_exists.mp (hkind.2 hk receiverNowMs hclock)
  simp only [VotingLog.closeVerdict, Option.elim_some, Verdict.decided.injEq] at h
  refine vouched_of_named h fun t3 ht3 => ?_
  simp only [Verified, hk]
  exact ⟨now, hclock, ht3⟩

theorem verifySs_eq_ok {t3 : Tier3PollState} {oracle : BeaconOracle} {rng : Digest → ℕ → ℕ → ℕ}
    {cx : Codec} {communityId : SpaceId}
    (h : verifySs cx event t3 rng oracle communityId = some (.ok ())) :
    ∃ payload vrfOutput, cx.sortitionSelection event.payload = .ok payload ∧
      oracle.vrfOutputFor communityId (t3.beaconSeed cx) t3.meta.communityEpoch = some vrfOutput ∧
      t3.drawSeats rng vrfOutput = some ⟨payload.primary, payload.backup⟩ := by
  unfold verifySs at h
  split at h
  · simp at h
  · rename_i payload hpayload
    split at h
    · simp at h
    · rename_i vrfOutput houtput
      obtain ⟨recomputed, hdraw, hsame⟩ := Option.map_eq_some_iff.mp h
      split_ifs at hsame with hne
      rw [not_or, not_not, not_not] at hne
      refine ⟨payload, vrfOutput, hpayload, houtput, ?_⟩
      rw [hdraw, ← hne.1, ← hne.2]

theorem selectionVerdict_vouched (horacle : ∀ oracle ∈ beaconOracle, Tells P known oracle)
    (h : log.selectionVerdict P.cx event P.rng P.communityId beaconOracle = .decided (.ok ()))
    (hk : event.kind = .sortitionSelection) :
    ∃ pid, Vouched P known clock [log] pid event := by
  unfold VotingLog.selectionVerdict at h
  split at h
  · simp at h
  rename_i pid hpid
  split at h
  · simp at h
  · simp at h
  rename_i t3 oracle hpoll
  cases hverify : verifySs P.cx event t3 P.rng oracle P.communityId with
  | none => simp [hverify] at h
  | some r =>
    cases r with
    | error err => simp [hverify, Except.mapError] at h
    | ok u =>
      refine ⟨pid, hpid, log, List.mem_singleton_self log, t3, hpoll, .inl ?_⟩
      simp only [Verified, hk]
      exact ⟨oracle, horacle oracle rfl, hverify⟩

theorem resultVerdict_ne_ok : log.resultVerdict P.cx event ≠ .decided (.ok ()) := by
  unfold VotingLog.resultVerdict
  split
  · simp
  split
  · simp
  split_ifs
  · simp
  split
  · simp
  split <;> simp

theorem resultVerdict_recompute {t3 : Tier3PollState} {key : PollId ×ₗ Digest}
    {claimed : StarResult} (hk : event.kind = .pollResult)
    (h : log.resultVerdict P.cx event = .recompute t3 key claimed) :
    Claims P event (ofLex key).1 claimed ∧ log.tier3Of (ofLex key).1 = some t3 ∧
      t3.closeEventHash = some (ofLex key).2 := by
  unfold VotingLog.resultVerdict at h
  split at h
  · simp at h
  rename_i pid hpid
  split at h
  · simp at h
  rename_i t3' hpoll
  split_ifs at h
  split at h
  · simp at h
  rename_i closeHash hclose
  split at h
  · simp at h
  rename_i claimed' hclaim
  simp only [Verdict.recompute.injEq] at h
  obtain ⟨rfl, rfl, rfl⟩ := h
  exact ⟨⟨hk, hpid, hclaim⟩, hpoll, hclose⟩

/-- Only a PollResult leaves the check with a copy of the poll. -/
theorem inbound_recompute {snapshot : MembershipSnapshot} {t3 : Tier3PollState}
    {key : PollId ×ₗ Digest} {claimed : StarResult}
    (h : log.inboundEligibilityCheck P.cx event snapshot P.tier1Ballot P.rng P.communityId
      beaconOracle receiverNowMs = .recompute t3 key claimed) :
    Claims P event (ofLex key).1 claimed ∧ log.tier3Of (ofLex key).1 = some t3 ∧
      t3.closeEventHash = some (ofLex key).2 := by
  unfold VotingLog.inboundEligibilityCheck at h
  split at h
  case h_7 =>
    unfold VotingLog.selectionVerdict at h
    split at h
    · simp at h
    split at h
    · simp at h
    · simp at h
    rename_i t3' oracle hpoll
    cases hverify : verifySs P.cx event t3' P.rng oracle P.communityId <;> simp [hverify] at h
  case h_9 hk => exact resultVerdict_recompute hk h
  all_goals simp [VotingLog.closeVerdict] at h

theorem inbound_vouched {snapshot : MembershipSnapshot} (hclock : clock receiverNowMs)
    (horacle : ∀ oracle ∈ beaconOracle, Tells P known oracle)
    (h : log.inboundEligibilityCheck P.cx event snapshot P.tier1Ballot P.rng P.communityId
      beaconOracle receiverNowMs = .decided (.ok ())) : Cleared P known clock [log] event := by
  intro htier hkind
  cases hk : event.kind with
  | pollClose =>
    simp only [VotingLog.inboundEligibilityCheck, htier, hk] at h
    exact closeVerdict_vouched hclock hkind h hk
  | sortitionSelection =>
    simp only [VotingLog.inboundEligibilityCheck, htier, hk] at h
    exact selectionVerdict_vouched horacle h hk
  | sortitionFailed =>
    simp only [VotingLog.inboundEligibilityCheck, htier, hk, Verdict.decided.injEq] at h
    exact vouched_of_named h fun t3 ht3 => by simpa only [Verified, hk] using ht3
  | pollResult =>
    simp only [VotingLog.inboundEligibilityCheck, htier, hk] at h
    exact absurd h resultVerdict_ne_ok
  | miniPublicDecline =>
    simp only [VotingLog.inboundEligibilityCheck, htier, hk, Verdict.decided.injEq] at h
    exact publishGate_vouched h hkind.1 (by simp [hk, engineKind])
  | draftCandidate =>
    simp only [VotingLog.inboundEligibilityCheck, htier, hk, Verdict.decided.injEq] at h
    exact publishGate_vouched h hkind.1 (by simp [hk, engineKind])
  | draftApproval =>
    simp only [VotingLog.inboundEligibilityCheck, htier, hk, Verdict.decided.injEq] at h
    exact publishGate_vouched h hkind.1 (by simp [hk, engineKind])
  | ratificationBallot =>
    simp only [VotingLog.inboundEligibilityCheck, htier, hk, Verdict.decided.injEq] at h
    exact publishGate_vouched h hkind.1 (by simp [hk, engineKind])
  | _ => simp [Gated, gatedKind, hk] at hkind

end Inbound

/-! ### Own events -/

section Own

open VotingLogEngine

variable {engine : VotingLogEngine} {s : EngineStep}

theorem resultToMint_expected {t3 : Tier3PollState} {result : StarResult}
    (h : t3.resultToMint P.cx P.cv = some result) :
    expectedResultFromState P.cx P.cv t3 = .ok result := by
  unfold Tier3PollState.resultToMint at h
  unfold expectedResultFromState recomputeExpectedResult
  split_ifs at h with hresult hpublic hclosed hsecret
  · obtain ⟨ordered, hordered, rfl⟩ := Option.map_eq_some_iff.mp h
    simp [hordered, hpublic]
  · obtain ⟨ordered, hordered, hrecover⟩ := Option.bind_eq_some_iff.mp h
    simp [hordered, hsecret, hrecover]

theorem resultToMint_closed {t3 : Tier3PollState} {result : StarResult}
    (h : t3.resultToMint P.cx P.cv = some result) :
    t3.closeEventHash.isNone = false ∨ t3.meta.config.privacyMode = "se" := by
  unfold Tier3PollState.resultToMint at h
  split_ifs at h with hresult hpublic hclosed hsecret
  · exact .inl (Bool.eq_false_iff.mpr hclosed)
  · exact .inr hsecret

theorem verifySr_eq_ok_iff {t3 : Tier3PollState} : verifySr P.cx P.cv event t3 = .ok () ↔
    t3.closeEventHash.isNone = false ∧ ∃ claimed, decodePollResultClaim P.cx event = .ok claimed ∧
      expectedResultFromState P.cx P.cv t3 = .ok claimed := by
  unfold verifySr
  cases t3.closeEventHash with
  | none => simp
  | some closeHash =>
    cases decodePollResultClaim P.cx event with
    | error err => simp
    | ok claimed =>
      cases expectedResultFromState P.cx P.cv t3 with
      | error err => simp
      | ok expected => simp

def oneOutput (seed : Digest) (epoch : ℕ) (vrfOutput : Digest) : BeaconOracle where
  vrfOutputFor _ seed' epoch' := if seed' = seed ∧ epoch' = epoch then some vrfOutput else none

theorem tells_oneOutput {seed : Digest} {epoch : ℕ} {vrfOutput : Digest}
    (h : known seed epoch vrfOutput) : Tells P known (oneOutput seed epoch vrfOutput) := by
  intro seed' epoch' vrfOutput' houtput
  simp only [oneOutput] at houtput
  split_ifs at houtput with hsame
  obtain ⟨rfl, rfl⟩ := hsame
  rwa [← Option.some.inj houtput]

/-- A draw from a known beacon passes the verifier. -/
theorem verifySs_of_drawn {t3 : Tier3PollState} {payload : SortitionSelectionPayload}
    {vrfOutput : Digest} (hpayload : P.cx.sortitionSelection event.payload = .ok payload)
    (hdraw : t3.drawSeats P.rng vrfOutput = some ⟨payload.primary, payload.backup⟩) :
    verifySs P.cx event t3 P.rng (oneOutput (t3.beaconSeed P.cx) t3.meta.communityEpoch vrfOutput)
      P.communityId = some (.ok ()) := by
  simp [verifySs, hpayload, oneOutput, hdraw]

theorem minted_cleared (hsound : SoundStep P known engine s) (hclock : ∀ r ∈ s.reading, clock r)
    (h : Minted P engine s event) : Cleared P known clock [engine.node.log] event := by
  intro htier hkind
  cases h with
  | command hbuilds hgate =>
    refine publishGate_vouched hgate hkind.1 ?_
    simp only [commandBuilds, htier, decide_true, Bool.true_and, Bool.and_eq_true,
      Bool.not_eq_true'] at hbuilds
    exact hbuilds.1
  | selection hpoll hawaits hevent =>
    rename_i pid t3 messageHash vrfOutput nowMs
    obtain ⟨hbeacon, hcodec⟩ := hsound
    unfold selectionEvent at hevent
    split_ifs at hevent
    obtain ⟨selection, hdraw, rfl⟩ := Option.map_eq_some_iff.mp hevent
    obtain ⟨href, hpayload⟩ := hcodec pid t3 selection hpoll hdraw
    simp only [awaitingBeacon, List.mem_filter, hpoll, Option.any_some, Bool.and_eq_true,
      decide_eq_true_eq] at hawaits
    have hknown : known (t3.beaconSeed P.cx) t3.meta.communityEpoch vrfOutput :=
      hbeacon _ _ hawaits.2.2
    refine ⟨pid, href, engine.node.log, List.mem_singleton_self _, t3, hpoll, .inl ?_⟩
    exact ⟨_, tells_oneOutput hknown, verifySs_of_drawn hpayload hdraw⟩
  | failed hpoll hfails =>
    rename_i pid t3 base
    exact ⟨pid, hsound, engine.node.log, List.mem_singleton_self _, t3, hpoll, .inr ⟨rfl, hfails⟩⟩
  | close hpoll hcloses =>
    rename_i pid t3 base receiverNowMs
    have hreading : clock receiverNowMs := hclock receiverNowMs rfl
    exact ⟨pid, hsound, engine.node.log, List.mem_singleton_self _, t3, hpoll,
      .inr ⟨rfl, receiverNowMs, hreading, hcloses⟩⟩
  | result hpoll hresult hbase =>
    rename_i pid t3 result base
    obtain ⟨href, hpayload⟩ := hsound t3 result hpoll hresult
    refine ⟨pid, href, engine.node.log, List.mem_singleton_self _, t3, hpoll, ?_⟩
    rcases resultToMint_closed hresult with hclosed | hsecret
    · have hclaim : decodePollResultClaim P.cx (P.encoder.build .pollResult
          (engineAutoHlcFromBase base pid "rs") P.selfOwner (P.encoder.pollResult pid result)) =
          .ok result := by
        simp only [decodePollResultClaim, EventEncoder.build, hpayload]
      exact .inl (verifySr_eq_ok_iff.mpr
        ⟨hclosed, result, hclaim, resultToMint_expected hresult⟩)
    · exact .inr ⟨rfl, hsecret, _, hpayload, hresult⟩

end Own

/-! ### Steps -/

section Steps

open VotingLogEngine

variable {engine : VotingLogEngine} {s : EngineStep} {beaconOracle : Option BeaconOracle}
  {receiverNowMs : Option ℕ}

theorem mem_snoc_log {old : VotingLog} : ∀ l ∈ logs, l ∈ logs ++ [old] :=
  fun _ h => List.mem_append_left _ h

theorem mem_snoc_new {old : VotingLog} : ∀ l ∈ [old], l ∈ logs ++ [old] :=
  fun _ h => List.mem_append_right _ h

theorem cleared_of_claims {key : PollId ×ₗ Digest} {claimed : StarResult}
    (hclaims : Claims P event (ofLex key).1 claimed) (hresult : Remembered P logs key claimed) :
    Cleared P known clock logs event := by
  intro _ _
  obtain ⟨hk, hpid, hclaim⟩ := hclaims
  obtain ⟨log, hlog, t3, hpoll, hclose, hexpected⟩ := hresult
  refine ⟨(ofLex key).1, hpid, log, hlog, t3, hpoll, .inl ?_⟩
  simp only [Verified, hk]
  exact verifySr_eq_ok_iff.mpr ⟨by rw [hclose]; rfl, claimed, hclaim, hexpected⟩

theorem compareClaim_vetted {snapshot : MembershipSnapshot} {key : PollId ×ₗ Digest}
    {expected claimed : StarResult} {next : IngestTask}
    (hclaims : Claims P event (ofLex key).1 claimed) (hresult : Remembered P logs key expected)
    (h : compareClaim event snapshot expected claimed = some next) :
    TaskVetted P known clock logs next := by
  unfold compareClaim at h
  split_ifs at h with hsame
  obtain rfl := Option.some.inj h
  rw [hsame] at hresult
  exact cleared_of_claims hclaims hresult

/-- What a section leaves of a vetted task is vetted, the log it looked at included. -/
theorem runSection_vetted {task next : IngestTask} (hclock : clock receiverNowMs)
    (horacle : ∀ oracle ∈ beaconOracle, Tells P known oracle)
    (hv : Vetted P known clock logs engine) (htask : TaskVetted P known clock logs task)
    (h : (engine.runSection P beaconOracle receiverNowMs task).2 = some next) :
    TaskVetted P known clock (logs ++ [engine.node.log]) next := by
  cases task with
  | verified event snapshot =>
    simp only [runSection, checkEligible] at h
    split at h
    · rename_i hcheck
      obtain rfl := Option.some.inj h
      exact (inbound_vouched hclock horacle hcheck).mono mem_snoc_new
    · simp at h
    · rename_i t3 key claimed hcheck
      obtain rfl := Option.some.inj h
      obtain ⟨hclaims, hpoll, hclose⟩ := inbound_recompute hcheck
      exact ⟨hclaims, engine.node.log, List.mem_append_right _ (List.mem_singleton_self _),
        hpoll, hclose⟩
    · simp at h
  | copied event snapshot t3 key claimed =>
    obtain ⟨hclaims, log, hlog, hpoll, hclose⟩ := htask
    simp only [runSection, lookUp] at h
    split at h
    · rename_i expected hmemo
      exact compareClaim_vetted hclaims ((hv.memo key expected hmemo).mono mem_snoc_log) h
    · split at h
      · rename_i expected hexpected
        obtain rfl := Option.some.inj h
        exact ⟨hclaims, log, mem_snoc_log log hlog, t3, hpoll, hclose, hexpected⟩
      · simp at h
  | recomputed event snapshot key expected claimed =>
    exact compareClaim_vetted htask.1 (htask.2.mono mem_snoc_log) h
  | eligible event snapshot =>
    simp only [runSection, VotingLogEngine.apply] at h
    split at h
    · obtain rfl := Option.some.inj h
      trivial
    · simp at h
  | applied event => simp [runSection] at h
  | accepted event snapshot =>
    simp only [runSection, Option.some.injEq] at h
    obtain rfl := h
    exact Cleared.mono mem_snoc_log htask
  | announced event snapshot =>
    simp only [runSection, VotingLogEngine.apply] at h
    split at h <;> simp at h

theorem pollOf_gated {cx : Codec} {communityId : SpaceId} (hkind : gatedKind event.kind = true)
    (h : VotingLog.pollOf cx communityId event = some pid) :
    cx.pollIdRef event.payload = some pid := by
  unfold VotingLog.pollOf VotingLog.pollIdOf at h
  cases hk : event.kind <;> simp [gatedKind, hk] at hkind <;> simp only [hk] at h <;>
    cases href : cx.pollIdRef event.payload <;> simp_all [Except.toOption]

theorem Vetted.step (hv : Vetted P known clock logs engine) (hsound : SoundStep P known engine s)
    (hclock : ∀ r ∈ s.reading, clock r) :
    Vetted P known clock (logs ++ [engine.node.log]) (engine.step P s) where
  tasks task htask := by
    cases step_tasks htask with
    | kept h => exact (hv.tasks task h).mono mem_snoc_log
    | received event snapshot => trivial
    | minted snapshot h => exact (minted_cleared hsound hclock h).mono mem_snoc_new
    | advanced hs hold hnext =>
      subst hs
      exact runSection_vetted (hclock _ rfl) hsound hv (hv.tasks _ (List.mem_of_getElem? hold))
        hnext
  memo key result hmemo := by
    rcases step_memo hmemo with hold | ⟨event, snapshot, claimed, htask⟩
    · exact (hv.memo key result hold).mono mem_snoc_log
    · exact (hv.tasks _ htask).2.mono mem_snoc_log
  recorded pid p hp event he htier hkind := by
    rcases (step_log engine s).recorded hp he with ⟨q, hq, he⟩ | ⟨howner, -, htask⟩
    · exact (hv.recorded pid q hq event he htier hkind).mono mem_snoc_log
    · have hcleared : Cleared P known clock logs event := by
        rcases htask with ⟨snapshot, htask⟩ | ⟨snapshot, htask⟩ <;> exact hv.tasks _ htask
      obtain ⟨pid', hvouched⟩ := hcleared htier hkind
      have hpid := hvouched.1.symm.trans (pollOf_gated hkind.1 howner)
      obtain rfl := Option.some.inj hpid
      exact hvouched.mono mem_snoc_log

/-! ### Reading a warrant -/

theorem gated_of_ne_close {kind : PollEventKindCode} (h : gatedKind kind = true)
    (hne : kind ≠ .pollClose) : Gated (fun _ => True) kind :=
  ⟨h, fun hk => absurd hk hne⟩

variable {t3 : Tier3PollState}

theorem Warrant.drawn (h : Warrant P known clock t3 event) (hk : event.kind = .sortitionSelection) :
    ∃ payload vrfOutput, P.cx.sortitionSelection event.payload = .ok payload ∧
      known (t3.beaconSeed P.cx) t3.meta.communityEpoch vrfOutput ∧
      t3.drawSeats P.rng vrfOutput = some ⟨payload.primary, payload.backup⟩ := by
  simp only [Warrant, Verified, Triggered, hk, and_false, or_false] at h
  obtain ⟨oracle, htells, hverify⟩ := h
  obtain ⟨payload, vrfOutput, hpayload, houtput, hdraw⟩ := verifySs_eq_ok hverify
  exact ⟨payload, vrfOutput, hpayload, htells _ _ _ houtput, hdraw⟩

theorem Warrant.balloted (h : Warrant P known clock t3 event)
    (hk : event.kind = .ratificationBallot) : verifyRatificationBallot P.cx event t3 = .ok () := by
  simpa only [Warrant, Verified, Triggered, hk, and_false, or_false] using h

theorem Warrant.tallied (h : Warrant P known clock t3 event) (hk : event.kind = .pollResult) :
    ∃ result, expectedResultFromState P.cx P.cv t3 = .ok result := by
  simp only [Warrant, Verified, Triggered, hk] at h
  rcases h with hverify | ⟨-, -, payload, -, hresult⟩
  · obtain ⟨-, claimed, -, hexpected⟩ := verifySr_eq_ok_iff.mp hverify
    exact ⟨claimed, hexpected⟩
  · exact ⟨payload.result, resultToMint_expected hresult⟩

/-! ### Runs -/

theorem SoundRun.of_append {pre post : List EngineStep} (h : SoundRun P known (pre ++ post)) :
    SoundRun P known pre := by
  intro ns hns
  obtain ⟨pre', post', rfl, hs⟩ := mem_trace.mp hns
  exact h ns (mem_trace.mpr ⟨pre', post' ++ post, by simp, hs⟩)

/-- The logs an engine has had. -/
def logsOf (P : VotingLogEngineParams) (steps : List EngineStep) : List VotingLog :=
  (trace (VotingLogEngine.step P) {} steps).map (·.1.node.log)

theorem run_vetted (steps : List EngineStep) (hsound : SoundRun P known steps)
    (hclock : ∀ r ∈ readings steps, clock r) :
    Vetted P known clock (logsOf P steps) (VotingLogEngine.run P steps) := by
  induction steps using List.reverseRecOn with
  | nil => exact ⟨by simp [VotingLogEngine.run], fun key result h => by simp [VotingLogEngine.run] at h,
      fun pid p h => by simp [VotingLogEngine.run] at h⟩
  | append_singleton steps s ih =>
    have hlast : SoundStep P known (VotingLogEngine.run P steps) s :=
      hsound (VotingLogEngine.run P steps, s) (by
        rw [trace_snoc]
        exact List.mem_append_right _ (List.mem_singleton_self _))
    have hold : ∀ r ∈ readings steps, clock r := fun r hr =>
      hclock r (by rw [readings, List.filterMap_append]; exact List.mem_append_left _ hr)
    have hnew : ∀ r ∈ s.reading, clock r := fun r hr =>
      hclock r (List.mem_filterMap.mpr ⟨s, by simp, hr⟩)
    have hstep := (ih hsound.of_append hold).step hlast hnew
    simpa only [logsOf, trace_snoc, List.map_append, List.map_cons, List.map_nil,
      VotingLogEngine.run, List.foldl_append, List.foldl_cons, List.foldl_nil] using hstep

/-- A log the engine has had is the log of a run that was continued. -/
theorem Vouched.of_run {steps : List EngineStep} (h : Vouched P known clock (logsOf P steps) pid event) :
    ∃ pre post t3, steps = pre ++ post ∧
      (VotingLogEngine.run P pre).node.log.tier3Of pid = some t3 ∧ Warrant P known clock t3 event := by
  obtain ⟨-, log, hlog, t3, hpoll, hwarrant⟩ := h
  obtain ⟨⟨engine, s⟩, hns, rfl⟩ := List.mem_map.mp hlog
  obtain ⟨pre, post, hsteps, rfl⟩ := mem_trace.mp hns
  exact ⟨pre, s :: post, t3, hsteps, hpoll, hwarrant⟩

end Steps

end Gates

/-- Every recorded Tier-3 event names its poll and was accepted by its verifier, or minted by
a trigger of this node, on a state the poll had had here. -/
theorem recorded_vouched (P : VotingLogEngineParams) (known : Digest → ℕ → Digest → Prop)
    (steps : List EngineStep) (hsound : SoundRun P known steps) {pid : PollId} {p : PollState}
    (hp : (VotingLogEngine.run P steps).node.log.polls[pid]? = some p)
    {event : SignedVotingEvent} (he : event ∈ p.events) (htier : event.tier = .sortition)
    (hkind : gatedKind event.kind = true)
    (hclock : event.kind = .pollClose → ∀ r ∈ readings steps, r.isSome = true) :
    P.cx.pollIdRef event.payload = some pid ∧ ∃ pre post t3, steps = pre ++ post ∧
      (VotingLogEngine.run P pre).node.log.tier3Of pid = some t3 ∧
        Warrant P known (· ∈ readings steps) t3 event := by
  have hvouched := (run_vetted steps hsound fun _ hr => hr).recorded pid p hp event he htier
    ⟨hkind, hclock⟩
  exact ⟨hvouched.1, hvouched.of_run⟩

/-! ### A draw -/

def secretConfig : Tier3PollConfigPayload :=
  { Sample.sortitionConfig with privacyMode := "se", ce := some 1 }

open Sample in
def secretConfigBytes : Bytes :=
  cborHead 5 9 ++ cborText "pt" ++ cborText "p" ++ cborText "ss" ++ cborHead 0 20 ++
    cborText "dw" ++ cborHead 0 60 ++ cborText "fw" ++ cborHead 0 60 ++
    cborText "rw" ++ cborHead 0 60 ++ cborText "pm" ++ cborText "se" ++
    cborText "im" ++ cborText "a" ++
    cborText "el" ++ cborHead 5 1 ++ cborText "mp" ++ cborHead 0 0 ++ cborText "ce" ++ cborHead 0 1

def secretCreate : SignedVotingEvent := Sample.event .sortition .pollCreate 1 "a" 1 secretConfigBytes

/-- `SHA-256(community_id || signing bytes)` of `secretCreate`. -/
def secretPoll : PollId := 0xb9973f7dadebb9350ff882a0f51ce5558df3319e8b40dae5e936a970e8d8db96

/-- What ChaCha20 draws for 40 members from the output 7. -/
def secretDraws : List ℕ :=
  [33, 18, 8, 1, 1, 18, 2, 17, 3, 12, 21, 16, 19, 6, 11, 12, 11, 15, 5, 11, 17, 2, 7, 5, 11, 10, 7,
   3, 3, 9, 3, 3, 2, 4, 0, 1, 1, 1, 1, 0]

def secretSeats : SortitionResult where
  primary := [34, 20, 11, 5, 6, 24, 9, 25, 12, 22, 32, 28, 3, 2, 26, 7, 16, 33, 4, 31]
  backup := [38, 19, 30, 29, 36, 8, 1, 14, 13, 39, 27, 35, 10, 21, 18, 37, 17, 23, 40, 15]

open Sample in
/-- The CBOR of a selection. -/
def selectionPayload (pid : PollId) (selection : SortitionResult) : Bytes :=
  cborHead 5 3 ++ cborText "pi" ++ cborBytes (beBytes 32 pid) ++
    cborText "pr" ++ cborHead 4 selection.primary.length ++
      selection.primary.flatMap (cborBytes <| beBytes 16 ·) ++
    cborText "bk" ++ cborHead 4 selection.backup.length ++
      selection.backup.flatMap (cborBytes <| beBytes 16 ·)

/-- What `sha256` is asked for. -/
def secretDigests : List (Bytes × Digest) :=
  [(beBytes 16 7 ++ Sample.sigInputBytes secretCreate.toSigInput, secretPoll),
   (Sample.sigInputBytes secretCreate.toSigInput,
    0xdc5d01bfdca531728e8a9525969ad0207d213fea6698e4d452910ef3ad070016),
   (beBytes 32 0xdc5d01bfdca531728e8a9525969ad0207d213fea6698e4d452910ef3ad070016 ++
    [1, 0, 0, 0, 0, 0, 0, 0],
    0x12c82dec7b64944cd2da6eedfeb002f0a7f6694bbed9c9334857fda2a09cd43d),
   ("dfrost-vrf-seed-v1".toUTF8.toList.map UInt8.toNat ++
    beBytes 32 0x12c82dec7b64944cd2da6eedfeb002f0a7f6694bbed9c9334857fda2a09cd43d ++
    [1, 0, 0, 0, 0, 0, 0, 0],
    0x4a28f12bd5b179f7a4c9abec74c3abdefd6f52b222a1f031103db51b0bf70798)]

def secretCodec : Codec :=
  { Sample.bareCodec (fun bytes => ((secretDigests.find? (·.1 = bytes)).map Prod.snd).getD
      0x6081ccc4aa79682fbe53c2903e02d29946123bc9b25df65ce1847ff64b44f983) with
    tier3Config := Sample.only secretConfigBytes secretConfig
    pollIdRef := fun bytes =>
      if bytes = selectionPayload secretPoll secretSeats then some secretPoll else none
    sortitionSelection := Sample.only (selectionPayload secretPoll secretSeats)
      ⟨secretPoll, secretSeats.primary, secretSeats.backup⟩ }

/-- The engine of member 1; the events of this run need no signature. -/
def secretParams : VotingLogEngineParams where
  cx := secretCodec
  cv := Sample.onePointCurve
  communityId := 7
  selfOwner := 1
  tier1Ballot _ := .error "missing field"
  crypto := ⟨fun _ => none, fun _ _ _ => false⟩
  encoder := ⟨Sample.refPayload, fun pid _ => Sample.refPayload pid, selectionPayload, fun _ => []⟩
  rng vrfOutput n i := if vrfOutput = 7 ∧ n = 40 then secretDraws.getD i 0 else 0
  tick := ⟨0, false⟩

def secretMembers : MembershipSnapshot where
  members := (List.range' 1 40).foldl (fun members a => members.insert a ⟨1, 0⟩) ∅

/-- Member 1 creates the poll, a beacon comes in, and the engine draws the mini-public. -/
def secretSteps : List EngineStep :=
  [.publish secretCreate (some secretMembers), .advance 0 none (some 1), .advance 0 none (some 1),
   .beacon 0x4a28f12bd5b179f7a4c9abec74c3abdefd6f52b222a1f031103db51b0bf70798 7 2,
   .advance 0 none (some 2), .advance 0 none (some 2)]

def secretSelection : SignedVotingEvent :=
  { Sample.event .sortition .sortitionSelection 2 "engine-b9973f7d" 0
      (selectionPayload secretPoll secretSeats) with sig := List.replicate 64 0 }

theorem secretSteps_drawn {pid : PollId} {t3 : Tier3PollState} {selection : SortitionResult}
    (hpoll : (VotingLogEngine.run secretParams (secretSteps.take 3)).node.log.tier3Of pid = some t3)
    (hdraw : t3.drawSeats secretParams.rng 7 = some selection) :
    pid = secretPoll ∧ selection = secretSeats := by
  have hkeys : (VotingLogEngine.run secretParams (secretSteps.take 3)).node.log.polls.keys =
      [secretPoll] := by decide +kernel
  have hseats : ((VotingLogEngine.run secretParams (secretSteps.take 3)).node.log.tier3Of
      secretPoll).bind (·.drawSeats secretParams.rng 7) = some secretSeats := by decide +kernel
  obtain ⟨p, hp, -⟩ := Option.bind_eq_some_iff.mp hpoll
  have hpid : pid ∈ [secretPoll] := by
    rw [← hkeys, Std.ExtTreeMap.mem_keys]
    exact Std.ExtTreeMap.mem_iff_isSome_getElem?.mpr (by rw [hp]; rfl)
  obtain rfl := List.mem_singleton.mp hpid
  rw [hpoll, Option.bind_some, hdraw] at hseats
  exact ⟨rfl, Option.some.inj hseats⟩

theorem secretSteps_sound :
    SoundRun secretParams (fun _ _ vrfOutput => vrfOutput = 7) secretSteps := by
  simp only [SoundRun, secretSteps, trace, List.forall_mem_cons, List.not_mem_nil,
    IsEmpty.forall_iff, implies_true, and_true]
  have hnone : ∀ (engine : VotingLogEngine) task nowMs, SoundStep secretParams
      (fun _ _ vrfOutput => vrfOutput = 7) engine (.advance task none nowMs) := by
    intro engine task nowMs oracle horacle
    cases horacle
  refine ⟨trivial, hnone _ _ _, hnone _ _ _, ⟨fun _ _ _ => rfl, ?_⟩, hnone _ _ _, hnone _ _ _⟩
  intro pid t3 selection hpoll hdraw
  obtain ⟨rfl, rfl⟩ := secretSteps_drawn hpoll hdraw
  exact ⟨by decide +kernel, by decide +kernel⟩

theorem secretSteps_events : ∃ p, (VotingLogEngine.run secretParams
    secretSteps).node.log.polls[secretPoll]? = some p ∧
      p.events = [secretCreate, secretSelection] := by
  obtain ⟨p, hp, hevents⟩ := Option.map_eq_some_iff.mp (show
    (VotingLogEngine.run secretParams secretSteps).node.log.polls[secretPoll]?.map (·.events) =
      some [secretCreate, secretSelection] by decide +kernel)
  exact ⟨p, hp, hevents⟩

theorem recorded_vouched_sample :
    secretCodec.pollIdRef secretSelection.payload = some secretPoll ∧ ∃ pre post t3,
      secretSteps = pre ++ post ∧
      (VotingLogEngine.run secretParams pre).node.log.tier3Of secretPoll = some t3 ∧
        Warrant secretParams (fun _ _ vrfOutput => vrfOutput = 7) (· ∈ readings secretSteps) t3
          secretSelection := by
  obtain ⟨p, hp, hevents⟩ := secretSteps_events
  exact recorded_vouched secretParams _ secretSteps secretSteps_sound hp
    (show secretSelection ∈ p.events by simp [hevents]) rfl rfl nofun

end Harmony.Voting
