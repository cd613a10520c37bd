import Harmony.Lib.Checks
import Harmony.Voting.Tier3Apply

/-! What one event writes to a Tier-3 poll. Each kind writes at most one part of the
state: a selection, a decline, a statement, a vote, a candidate, an approval, a ballot, a
result or the failed stage. -/

namespace Harmony.Voting.Tier3PollState

open Harmony.Lib
open Harmony.Membership (OwnerAddr EventId Digest Bytes Hlc saturatingAdd)

variable (cx : Codec) (cv : Curve)

/-- The kind belongs to Tier 3 and its payload decodes. -/
def decodes (ev : SignedVotingEvent) : Bool :=
  match ev.kind with
  | .sortitionSelection => (cx.sortitionSelection ev.payload).isOk
  | .miniPublicDecline => (cx.miniPublicDecline ev.payload).isOk
  | .deliberationStatement => (cx.deliberationStatement ev.payload).isOk
  | .deliberationVote => (cx.deliberationVote ev.payload).isOk
  | .draftCandidate => (cx.draftCandidate ev.payload).isOk
  | .draftApproval => (cx.draftApproval ev.payload).isOk
  | .sortitionFailed => (cx.sortitionFailed ev.payload).isOk
  | .ratificationBallot => (cx.ratificationBallot ev.payload).isOk
  | .tallyShare => (cx.tallyShare ev.payload).isOk
  | .pollClose => true
  | .pollResult => (cx.tier3PollResult ev.payload).isOk
  | _ => false

/-- The event is not rejected. -/
def admits (s : Tier3PollState) (ev : SignedVotingEvent) : Bool :=
  (s.guard ev).isNone && decodes cx ev

/-! ### Writes -/

def selectionOf (s : Tier3PollState) (ev : SignedVotingEvent) : Option SortitionResult :=
  if s.admits cx ev ∧ ev.kind = .sortitionSelection then
    (cx.sortitionSelection ev.payload).toOption.map fun payload => ⟨payload.primary, payload.backup⟩
  else none

def declineOf (s : Tier3PollState) (ev : SignedVotingEvent) : Option (OwnerAddr × Hlc) :=
  if s.admits cx ev ∧ ev.kind = .miniPublicDecline ∧
      countOf s.declinesPerActor ev.actor < maxDeclinesPerActor then some (ev.actor, ev.hlc)
  else none

def statementOf (s : Tier3PollState) (ev : SignedVotingEvent) : Option DeliberationStatement :=
  if s.admits cx ev ∧ ev.kind = .deliberationStatement ∧ s.mayDeliberate ev ∧
      countOf s.deliberation.statementsPerAuthor ev.actor < maxStatementsPerAuthor then
    ((cx.deliberationStatement ev.payload).toOption.filter fun payload => textOk payload.text).map
      fun payload => ⟨sha256OfSigningBytes cx ev, ev.actor, payload.text, ev.hlc⟩
  else none

def voteOf (s : Tier3PollState) (ev : SignedVotingEvent) : Option DeliberationVoteEntry :=
  if s.admits cx ev ∧ ev.kind = .deliberationVote ∧ s.mayDeliberate ev then do
    let payload ← (cx.deliberationVote ev.payload).toOption
    let target ← s.deliberation.statements[payload.statementEventHash]?
    if target.author = ev.actor then none
    else
      let code ← BridgingVoteCode.fromU8 payload.vote
      some ⟨ev.actor, payload.statementEventHash, code, ev.hlc, sha256OfSigningBytes cx ev⟩
  else none

def candidateOf (s : Tier3PollState) (ev : SignedVotingEvent) : Option DraftCandidateState :=
  if s.admits cx ev ∧ ev.kind = .draftCandidate ∧
      countOf s.candidatesPerActor ev.actor < maxDraftCandidatesPerActor then
    (cx.draftCandidate ev.payload).toOption.map fun payload =>
      ⟨sha256OfSigningBytes cx ev, payload.text, some ev.actor, {ev.actor}⟩
  else none

/-- The candidate an event approves, whether or not there is one with this hash. -/
def approvalOf (s : Tier3PollState) (ev : SignedVotingEvent) : Option Digest :=
  if s.admits cx ev ∧ ev.kind = .draftApproval then
    (cx.draftApproval ev.payload).toOption.map DraftApprovalPayload.candidateEventHash
  else none

/-- A ballot that reaches the cap on ballots per actor. -/
def wellFormedBallot (s : Tier3PollState) (ev : SignedVotingEvent) :
    Option RatificationBallotPayload :=
  if s.admits cx ev ∧ ev.kind = .ratificationBallot then
    (cx.ratificationBallot ev.payload).toOption.filter
      (s.ballotOk cx cv (sha256OfSigningBytes cx ev))
  else none

def ballotOf (s : Tier3PollState) (ev : SignedVotingEvent) : Option RatificationBallotPayload :=
  if countOf s.ballotsPerActor ev.actor < maxRatificationBallotsPerActor then
    s.wellFormedBallot cx cv ev
  else none

def resultOf (s : Tier3PollState) (ev : SignedVotingEvent) : Option StarResult :=
  if s.admits cx ev ∧ ev.kind = .pollResult then
    (cx.tier3PollResult ev.payload).toOption.map fun payload =>
      if s.meta.config.privacyMode = "pu" then
        match expectedResultFromState cx cv s with
        | .ok result => result
        | .error _ => payload.result
      else payload.result
  else none

def failsBy (s : Tier3PollState) (ev : SignedVotingEvent) : Bool :=
  s.admits cx ev && ev.kind = .sortitionFailed

/-! ### The state after an event -/

def castVote (votes : BTreeMap (OwnerAddr ×ₗ Digest) DeliberationVoteEntry)
    (entry : DeliberationVoteEntry) : BTreeMap (OwnerAddr ×ₗ Digest) DeliberationVoteEntry :=
  let key : OwnerAddr ×ₗ Digest := toLex (entry.voter, entry.statementEventHash)
  if votes[key]?.all fun old => stamp old.lastUpdateHlc old.lastUpdateEventHash <
      stamp entry.lastUpdateHlc entry.lastUpdateEventHash then votes.insert key entry
  else votes

def raiseLane (lanes : BTreeMap (OwnerAddr ×ₗ String) (ℕ ×ₗ ℕ)) (ev : SignedVotingEvent) :
    BTreeMap (OwnerAddr ×ₗ String) (ℕ ×ₗ ℕ) :=
  lanes.insert ev.lane (lanes[ev.lane]?.elim ev.ordinal (max ev.ordinal))

/-- The counter of an actor rises with every write that counts. -/
def bumpBy {α : Type} (counts : BTreeMap OwnerAddr ℕ) (actor : OwnerAddr) (write : Option α) :
    BTreeMap OwnerAddr ℕ := if write.isSome then bumpCount counts actor else counts

/-- Every part of the state that an event can change, after it. -/
structure Stepped (s : Tier3PollState) (ev : SignedVotingEvent) (s' : Tier3PollState) : Prop where
  «meta» : s'.meta = s.meta
  committeeOracle : s'.committeeOracle = s.committeeOracle
  voided : s'.voided = s.voided
  stage : s'.stage = if s.failsBy cx ev then .failed
    else if (s.resultOf cx cv ev).isSome then .finalized else s.stage
  sortitionResult : s'.sortitionResult = (s.selectionOf cx ev).or s.sortitionResult
  declines : s'.declines = s.declines ++ (s.declineOf cx ev).toList
  declinesPerActor : s'.declinesPerActor =
    bumpBy s.declinesPerActor ev.actor (s.declineOf cx ev)
  statements : s'.deliberation.statements = (s.statementOf cx ev).elim s.deliberation.statements
    fun statement => s.deliberation.statements.insert statement.eventHash statement
  statementsPerAuthor : s'.deliberation.statementsPerAuthor =
    bumpBy s.deliberation.statementsPerAuthor ev.actor
      ((s.statementOf cx ev).filter fun statement =>
        s.deliberation.statements[statement.eventHash]?.isNone)
  votes : s'.deliberation.votes = (s.voteOf cx ev).elim s.deliberation.votes
    (castVote s.deliberation.votes)
  candidates : s'.candidates = (s.approvalOf cx ev).elim
    (s.candidates ++ (s.candidateOf cx ev).toList) fun hash => approveFirst hash ev.actor s.candidates
  candidatesPerActor : s'.candidatesPerActor =
    bumpBy s.candidatesPerActor ev.actor (s.candidateOf cx ev)
  ratificationBallots : s'.ratificationBallots =
    s.ratificationBallots ++ (s.ballotOf cx cv ev).toList
  ballotsPerActor : s'.ballotsPerActor = bumpBy s.ballotsPerActor ev.actor (s.ballotOf cx cv ev)
  rbNizkVerdicts : s'.rbNizkVerdicts = if (s.ballotOf cx cv ev).isSome then
    s.rememberVerdict (sha256OfSigningBytes cx ev) else s.rbNizkVerdicts
  result : s'.result = (s.resultOf cx cv ev).or s.result
  lastReceivedHlc : s'.lastReceivedHlc =
    if s.admits cx ev then raiseLane s.lastReceivedHlc ev else s.lastReceivedHlc
  maxApplied : s'.maxApplied =
    if s.admits cx ev then some (s.maxApplied.elim ev.key (max ev.key)) else s.maxApplied

variable {cx cv} {s : Tier3PollState} {ev : SignedVotingEvent}

/-! ### Other kinds write nothing -/

section OtherKinds

@[simp] theorem selectionOf_of_ne (h : ev.kind ≠ .sortitionSelection) :
    s.selectionOf cx ev = none := by
  simp [selectionOf, h]

@[simp] theorem declineOf_of_ne (h : ev.kind ≠ .miniPublicDecline) :
    s.declineOf cx ev = none := by
  simp [declineOf, h]

@[simp] theorem statementOf_of_ne (h : ev.kind ≠ .deliberationStatement) :
    s.statementOf cx ev = none := by
  simp [statementOf, h]

@[simp] theorem voteOf_of_ne (h : ev.kind ≠ .deliberationVote) : s.voteOf cx ev = none := by
  simp [voteOf, h]

@[simp] theorem candidateOf_of_ne (h : ev.kind ≠ .draftCandidate) :
    s.candidateOf cx ev = none := by
  simp [candidateOf, h]

@[simp] theorem approvalOf_of_ne (h : ev.kind ≠ .draftApproval) :
    s.approvalOf cx ev = none := by
  simp [approvalOf, h]

@[simp] theorem wellFormedBallot_of_ne (h : ev.kind ≠ .ratificationBallot) :
    s.wellFormedBallot cx cv ev = none := by
  simp [wellFormedBallot, h]

@[simp] theorem ballotOf_of_ne (h : ev.kind ≠ .ratificationBallot) :
    s.ballotOf cx cv ev = none := by
  simp [ballotOf, h]

@[simp] theorem resultOf_of_ne (h : ev.kind ≠ .pollResult) : s.resultOf cx cv ev = none := by
  simp [resultOf, h]

@[simp] theorem failsBy_of_ne (h : ev.kind ≠ .sortitionFailed) : s.failsBy cx ev = false := by
  simp [failsBy, h]

@[simp] theorem bumpBy_none {α : Type} (counts : BTreeMap OwnerAddr ℕ) (actor : OwnerAddr) :
    bumpBy counts actor (none : Option α) = counts := rfl

@[simp] theorem bumpBy_some {α : Type} (counts : BTreeMap OwnerAddr ℕ) (actor : OwnerAddr) (a : α) :
    bumpBy counts actor (some a) = bumpCount counts actor := rfl

end OtherKinds

/-! ### Every event steps so -/

theorem admits_eq_true : s.admits cx ev = true ↔ s.guard ev = none ∧ decodes cx ev = true := by
  simp [admits]

theorem isOk_iff {ε α : Type} {x : Except ε α} : x.isOk = true ↔ ∃ a, x = .ok a := by
  cases x <;> simp [Except.isOk, Except.toBool]

theorem Stepped.of_rejected (h : s.admits cx ev = false) : Stepped cx cv s ev s := by
  constructor <;>
    simp [h, failsBy, resultOf, selectionOf, declineOf, statementOf, voteOf, approvalOf,
      candidateOf, ballotOf, wellFormedBallot]

theorem dispatch_of_not_decodes (h : decodes cx ev = false) :
    ∃ err, s.dispatch cx cv ev = .error err := by
  have hdecode : ∀ {α : Type} (x : Except String α), x.isOk = false →
      ∃ reason, x = .error reason := by
    intro α x hx
    cases x <;> simp_all [Except.isOk, Except.toBool]
  unfold decodes at h
  unfold dispatch
  cases hk : ev.kind <;> rw [hk] at h <;> dsimp only at h ⊢
  all_goals first
    | exact ⟨_, rfl⟩
    | cases h
    | obtain ⟨reason, hr⟩ := hdecode _ h
      refine ⟨.payloadDecode reason, ?_⟩
      simp [applySortitionSelection, applyMiniPublicDecline, applyDeliberationStatement,
        applyDeliberationVote, applyDraftCandidate, applyDraftApproval, applySortitionFailed,
        applyRatificationBallot, applyTallyShare, applyPollResult, hr, decode, bind, Except.bind]

theorem applyEvent_of_rejected (h : s.admits cx ev = false) : (s.applyEvent cx cv ev).1 = s := by
  unfold applyEvent
  cases hg : s.guard ev with
  | some err => rfl
  | none =>
    have hd : decodes cx ev = false := by simpa [admits, hg] using h
    obtain ⟨err, herr⟩ : ∃ err, s.dispatch cx cv ev = .error err := dispatch_of_not_decodes hd
    rw [herr]

theorem applyEvent_of_handled {s' : Tier3PollState} {advance : Bool} (hg : s.guard ev = none)
    (h : s.dispatch cx cv ev = .ok (s', advance)) :
    (s.applyEvent cx cv ev).1 = s'.finish ev advance := by
  simp [applyEvent, hg, h]

section Kinds

theorem stepped_selection (ha : s.admits cx ev = true) (hk : ev.kind = .sortitionSelection) :
    Stepped cx cv s ev (s.applyEvent cx cv ev).1 := by
  obtain ⟨hg, hd⟩ := admits_eq_true.mp ha
  simp only [decodes, hk, isOk_iff] at hd
  obtain ⟨payload, hp⟩ := hd
  have hh : s.dispatch cx cv ev = .ok ({ s with
      sortitionResult := some ⟨payload.primary, payload.backup⟩ }, true) := by
    simp [dispatch, hk, applySortitionSelection, hp, decode]
  rw [applyEvent_of_handled hg hh]
  constructor <;> simp [finish, ha, hk, raiseLane, selectionOf, hp, Except.toOption]

theorem stepped_decline (ha : s.admits cx ev = true) (hk : ev.kind = .miniPublicDecline) :
    Stepped cx cv s ev (s.applyEvent cx cv ev).1 := by
  obtain ⟨hg, hd⟩ := admits_eq_true.mp ha
  simp only [decodes, hk, isOk_iff] at hd
  obtain ⟨payload, hp⟩ := hd
  by_cases hcap : maxDeclinesPerActor ≤ countOf s.declinesPerActor ev.actor
  · have hh : s.dispatch cx cv ev = .ok (s, false) := by
      simp [dispatch, hk, applyMiniPublicDecline, hp, decode, hcap]
    have hw : s.declineOf cx ev = none := by simp [declineOf, not_lt.mpr hcap]
    rw [applyEvent_of_handled hg hh]
    constructor <;> simp [finish, ha, hk, raiseLane, hw]
  · have hh : s.dispatch cx cv ev = .ok ({ s with
        declines := s.declines ++ [(ev.actor, ev.hlc)]
        declinesPerActor := bumpCount s.declinesPerActor ev.actor }, true) := by
      simp [dispatch, hk, applyMiniPublicDecline, hp, decode, hcap]
    have hw : s.declineOf cx ev = some (ev.actor, ev.hlc) := by
      simp [declineOf, ha, hk, not_le.mp hcap]
    rw [applyEvent_of_handled hg hh]
    constructor <;> simp [finish, ha, hk, raiseLane, hw]

theorem stepped_statement (ha : s.admits cx ev = true) (hk : ev.kind = .deliberationStatement) :
    Stepped cx cv s ev (s.applyEvent cx cv ev).1 := by
  obtain ⟨hg, hd⟩ := admits_eq_true.mp ha
  simp only [decodes, hk, isOk_iff] at hd
  obtain ⟨payload, hp⟩ := hd
  by_cases hwrites : s.mayDeliberate ev = true ∧ textOk payload.text = true ∧
      ¬maxStatementsPerAuthor ≤ countOf s.deliberation.statementsPerAuthor ev.actor
  · obtain ⟨hmay, htext, hcap⟩ := hwrites
    let statement : DeliberationStatement :=
      ⟨sha256OfSigningBytes cx ev, ev.actor, payload.text, ev.hlc⟩
    have hh : s.dispatch cx cv ev = .ok ({ s with
        deliberation := insertStatement s.deliberation statement.eventHash statement }, true) := by
      simp [dispatch, hk, applyDeliberationStatement, hp, decode, hmay, htext, hcap, statement]
    have hw : s.statementOf cx ev = some statement := by
      simp [statementOf, ha, hk, hp, hmay, htext, not_le.mp hcap, Except.toOption, statement]
    have hauthor : statement.author = ev.actor := rfl
    rw [applyEvent_of_handled hg hh]
    constructor <;>
      simp [finish, ha, hk, raiseLane, hw, insertStatement, Option.filter, bumpBy, hauthor]
  · have hh : s.dispatch cx cv ev = .ok (s, false) := by
      simp only [dispatch, hk, applyDeliberationStatement, hp, decode, bind, Except.bind]
      by_cases hmay : s.mayDeliberate ev = true
      · by_cases htext : textOk payload.text = true
        · have hcap : maxStatementsPerAuthor ≤
              countOf s.deliberation.statementsPerAuthor ev.actor :=
            not_not.mp fun hcap => hwrites ⟨hmay, htext, hcap⟩
          simp [hmay, htext, hcap]
        · simp [hmay, htext]
      · simp [hmay]
    have hw : s.statementOf cx ev = none := by
      simp only [statementOf, hp, Except.toOption]
      split_ifs with hc
      · have htext : textOk payload.text = false := Bool.eq_false_iff.mpr fun htext =>
          hwrites ⟨hc.2.2.1, htext, not_le.mpr hc.2.2.2⟩
        simp [Option.filter, htext]
      · rfl
    rw [applyEvent_of_handled hg hh]
    constructor <;> simp [finish, ha, hk, raiseLane, hw]

theorem stepped_vote (ha : s.admits cx ev = true) (hk : ev.kind = .deliberationVote) :
    Stepped cx cv s ev (s.applyEvent cx cv ev).1 := by
  obtain ⟨hg, hd⟩ := admits_eq_true.mp ha
  simp only [decodes, hk, isOk_iff] at hd
  obtain ⟨payload, hp⟩ := hd
  have hvote : s.voteOf cx ev = if s.mayDeliberate ev then do
      let target ← s.deliberation.statements[payload.statementEventHash]?
      if target.author = ev.actor then none
      else
        let code ← BridgingVoteCode.fromU8 payload.vote
        some ⟨ev.actor, payload.statementEventHash, code, ev.hlc, sha256OfSigningBytes cx ev⟩
      else none := by
    simp [voteOf, ha, hk, hp, Except.toOption]
  have hh : ∃ advance, s.dispatch cx cv ev = .ok ({ s with deliberation := { s.deliberation with
      votes := (s.voteOf cx ev).elim s.deliberation.votes (castVote s.deliberation.votes) } },
        advance) := by
    simp only [hvote, dispatch, hk, applyDeliberationVote, hp, decode, bind, Except.bind]
    cases s.mayDeliberate ev with
    | false => exact ⟨_, rfl⟩
    | true =>
      rw [if_neg (by simp), if_pos rfl]
      cases s.deliberation.statements[payload.statementEventHash]? with
      | none => exact ⟨_, rfl⟩
      | some target =>
        dsimp only [Option.bind_some]
        by_cases hauthor : target.author = ev.actor
        · rw [if_pos hauthor, if_pos hauthor]
          exact ⟨_, rfl⟩
        · rw [if_neg hauthor, if_neg hauthor]
          cases BridgingVoteCode.fromU8 payload.vote with
          | none => exact ⟨_, rfl⟩
          | some code =>
            dsimp only [Option.bind_some, Option.elim_some, castVote]
            split_ifs
            · exact ⟨_, rfl⟩
            · exact ⟨_, rfl⟩
  obtain ⟨advance, hh⟩ := hh
  rw [applyEvent_of_handled hg hh]
  constructor <;> simp [finish, ha, hk, raiseLane]

theorem stepped_candidate (ha : s.admits cx ev = true) (hk : ev.kind = .draftCandidate) :
    Stepped cx cv s ev (s.applyEvent cx cv ev).1 := by
  obtain ⟨hg, hd⟩ := admits_eq_true.mp ha
  simp only [decodes, hk, isOk_iff] at hd
  obtain ⟨payload, hp⟩ := hd
  by_cases hcap : maxDraftCandidatesPerActor ≤ countOf s.candidatesPerActor ev.actor
  · have hh : s.dispatch cx cv ev = .ok (s, false) := by
      simp [dispatch, hk, applyDraftCandidate, hp, decode, hcap]
    have hw : s.candidateOf cx ev = none := by simp [candidateOf, not_lt.mpr hcap]
    rw [applyEvent_of_handled hg hh]
    constructor <;> simp [finish, ha, hk, raiseLane, hw]
  · let candidate : DraftCandidateState :=
      ⟨sha256OfSigningBytes cx ev, payload.text, some ev.actor, {ev.actor}⟩
    have hh : s.dispatch cx cv ev = .ok ({ s with
        candidates := s.candidates ++ [candidate]
        candidatesPerActor := bumpCount s.candidatesPerActor ev.actor }, true) := by
      simp [dispatch, hk, applyDraftCandidate, hp, decode, hcap, candidate]
    have hw : s.candidateOf cx ev = some candidate := by
      simp [candidateOf, ha, hk, hp, not_le.mp hcap, Except.toOption, candidate]
    rw [applyEvent_of_handled hg hh]
    constructor <;> simp [finish, ha, hk, raiseLane, hw]

theorem approveFirst_of_not_any {hash : Digest} {actor : OwnerAddr} {l : List DraftCandidateState}
    (h : l.any (·.eventHash = hash) = false) : approveFirst hash actor l = l := by
  induction l with
  | nil => rfl
  | cons c cs ih =>
    simp only [List.any_cons, Bool.or_eq_false_iff, decide_eq_false_iff_not] at h
    rw [approveFirst, if_neg h.1, ih h.2]

theorem stepped_approval (ha : s.admits cx ev = true) (hk : ev.kind = .draftApproval) :
    Stepped cx cv s ev (s.applyEvent cx cv ev).1 := by
  obtain ⟨hg, hd⟩ := admits_eq_true.mp ha
  simp only [decodes, hk, isOk_iff] at hd
  obtain ⟨payload, hp⟩ := hd
  have hw : s.approvalOf cx ev = some payload.candidateEventHash := by
    simp [approvalOf, ha, hk, hp, Except.toOption]
  have hh : ∃ advance, s.dispatch cx cv ev = .ok ({ s with
      candidates := approveFirst payload.candidateEventHash ev.actor s.candidates }, advance) := by
    simp only [dispatch, hk, applyDraftApproval, hp, decode, bind, Except.bind]
    split_ifs with hany
    · exact ⟨_, rfl⟩
    · rw [approveFirst_of_not_any (Bool.eq_false_iff.mpr hany)]
      exact ⟨_, rfl⟩
  obtain ⟨advance, hh⟩ := hh
  rw [applyEvent_of_handled hg hh]
  constructor <;> simp [finish, ha, hk, raiseLane, hw]

theorem stepped_ballot (ha : s.admits cx ev = true) (hk : ev.kind = .ratificationBallot) :
    Stepped cx cv s ev (s.applyEvent cx cv ev).1 := by
  obtain ⟨hg, hd⟩ := admits_eq_true.mp ha
  simp only [decodes, hk, isOk_iff] at hd
  obtain ⟨payload, hp⟩ := hd
  by_cases hwrites : s.ballotOk cx cv (sha256OfSigningBytes cx ev) payload = true ∧
      ¬maxRatificationBallotsPerActor ≤ countOf s.ballotsPerActor ev.actor
  · obtain ⟨hok, hcap⟩ := hwrites
    have hh : s.dispatch cx cv ev = .ok ({ s with
        ratificationBallots := s.ratificationBallots ++ [payload]
        ballotsPerActor := bumpCount s.ballotsPerActor ev.actor
        rbNizkVerdicts := s.rememberVerdict (sha256OfSigningBytes cx ev) },
          (ratificationOrdering cx s).isSome) := by
      simp [dispatch, hk, applyRatificationBallot, hp, decode, hok, hcap]
    have hw : s.ballotOf cx cv ev = some payload := by
      simp [ballotOf, wellFormedBallot, ha, hk, hp, hok, not_le.mp hcap, Except.toOption]
    rw [applyEvent_of_handled hg hh]
    constructor <;> simp [finish, ha, hk, raiseLane, hw]
  · have hh : s.dispatch cx cv ev = .ok (s, false) := by
      simp only [dispatch, hk, applyRatificationBallot, hp, decode, bind, Except.bind]
      by_cases hok : s.ballotOk cx cv (sha256OfSigningBytes cx ev) payload = true
      · have hcap : maxRatificationBallotsPerActor ≤ countOf s.ballotsPerActor ev.actor :=
          not_not.mp fun hcap => hwrites ⟨hok, hcap⟩
        simp [hok, hcap]
      · simp [hok]
    have hw : s.ballotOf cx cv ev = none := by
      simp only [ballotOf, wellFormedBallot, ha, hk, hp, Except.toOption, and_self, if_true]
      split_ifs with hcap
      · have hok : s.ballotOk cx cv (sha256OfSigningBytes cx ev) payload = false :=
          Bool.eq_false_iff.mpr fun hok => hwrites ⟨hok, not_le.mpr hcap⟩
        simp [Option.filter, hok]
      · rfl
    rw [applyEvent_of_handled hg hh]
    constructor <;> simp [finish, ha, hk, raiseLane, hw]

theorem stepped_result (ha : s.admits cx ev = true) (hk : ev.kind = .pollResult) :
    Stepped cx cv s ev (s.applyEvent cx cv ev).1 := by
  obtain ⟨hg, hd⟩ := admits_eq_true.mp ha
  simp only [decodes, hk, isOk_iff] at hd
  obtain ⟨payload, hp⟩ := hd
  obtain ⟨result, hw, hh⟩ : ∃ result, s.resultOf cx cv ev = some result ∧
      s.dispatch cx cv ev = .ok ({ s with result := some result, stage := .finalized }, true) := by
    simp only [resultOf, dispatch, ha, hk, applyPollResult, hp, decode, bind, Except.bind,
      Except.toOption, and_self, if_true, Option.map_some]
    exact ⟨_, rfl, rfl⟩
  rw [applyEvent_of_handled hg hh]
  constructor <;> simp [finish, ha, hk, raiseLane, hw]

theorem stepped_failed (ha : s.admits cx ev = true) (hk : ev.kind = .sortitionFailed) :
    Stepped cx cv s ev (s.applyEvent cx cv ev).1 := by
  obtain ⟨hg, hd⟩ := admits_eq_true.mp ha
  simp only [decodes, hk, isOk_iff] at hd
  obtain ⟨payload, hp⟩ := hd
  have hh : s.dispatch cx cv ev = .ok ({ s with stage := .failed }, true) := by
    simp [dispatch, hk, applySortitionFailed, hp, decode]
  rw [applyEvent_of_handled hg hh]
  constructor <;> simp [finish, ha, hk, raiseLane, failsBy]

theorem stepped_other (ha : s.admits cx ev = true)
    (hk : ev.kind = .tallyShare ∨ ev.kind = .pollClose) :
    Stepped cx cv s ev (s.applyEvent cx cv ev).1 := by
  obtain ⟨hg, hd⟩ := admits_eq_true.mp ha
  obtain ⟨shares, close, advance, hh⟩ : ∃ shares close advance, s.dispatch cx cv ev =
      .ok ({ s with tallyShares := shares, closeEventHash := close }, advance) := by
    rcases hk with hk | hk
    · simp only [decodes, hk, isOk_iff] at hd
      obtain ⟨payload, hp⟩ := hd
      simp only [dispatch, hk, applyTallyShare, hp, decode, bind, Except.bind]
      split_ifs
      · exact ⟨_, _, _, rfl⟩
      · exact ⟨_, _, _, rfl⟩
    · simp only [dispatch, hk, applyPollClose]
      exact ⟨_, _, _, rfl⟩
  rw [applyEvent_of_handled hg hh]
  rcases hk with hk | hk <;> constructor <;> simp [finish, ha, hk, raiseLane]

end Kinds

theorem stepped (cx : Codec) (cv : Curve) (s : Tier3PollState) (ev : SignedVotingEvent) :
    Stepped cx cv s ev (s.applyEvent cx cv ev).1 := by
  cases ha : s.admits cx ev with
  | false =>
    rw [applyEvent_of_rejected ha]
    exact .of_rejected ha
  | true =>
    have hd := (admits_eq_true.mp ha).2
    cases hk : ev.kind with
    | sortitionSelection => exact stepped_selection ha hk
    | miniPublicDecline => exact stepped_decline ha hk
    | deliberationStatement => exact stepped_statement ha hk
    | deliberationVote => exact stepped_vote ha hk
    | draftCandidate => exact stepped_candidate ha hk
    | draftApproval => exact stepped_approval ha hk
    | sortitionFailed => exact stepped_failed ha hk
    | ratificationBallot => exact stepped_ballot ha hk
    | tallyShare => exact stepped_other ha (.inl hk)
    | pollClose => exact stepped_other ha (.inr hk)
    | pollResult => exact stepped_result ha hk
    | _ => simp [decodes, hk] at hd

end Harmony.Voting.Tier3PollState
